import Dataflow.Proofs.Program.Matching
import Dataflow.Proofs.Program.Relocation
import Dataflow.Proofs.Program.Slots
import Dataflow.Proofs.Slot.Shift

/-!
# One more parameter

A parameter that is declared anew comes after the others. No node reads it yet, so the graph has the
same program, except that the new parameter takes the slot after those of the others and every slot
of a wire is one further (`Graph.compile_insertParameter`).
-/

namespace Dataflow

/-- The slot with room for one more in front of the first ones that are free to move. -/
def Slot.makeRoom (first : Nat) (s : Slot) : Slot :=
  if s.index < first then s else s.succ

/-- One of the first slots stays. -/
theorem Slot.makeRoom_of_lt {first : Nat} {s : Slot} (h : s.index < first) :
    s.makeRoom first = s :=
  if_pos h

/-- Any other slot is one further. -/
theorem Slot.makeRoom_of_le {first : Nat} {s : Slot} (h : first ≤ s.index) :
    s.makeRoom first = s.succ :=
  if_neg (Nat.not_lt.2 h)

/-- Different slots stay different. -/
theorem Slot.makeRoom_injective (first : Nat) : Function.Injective (Slot.makeRoom first) := by
  intro s t heq
  unfold makeRoom at heq
  by_cases hs : s.index < first
  · by_cases ht : t.index < first
    · rwa [if_pos hs, if_pos ht] at heq
    · rw [if_pos hs, if_neg ht] at heq
      rw [heq] at hs
      exact absurd (Nat.lt_of_succ_lt hs) ht
  · by_cases ht : t.index < first
    · rw [if_neg hs, if_pos ht] at heq
      rw [← heq] at ht
      exact absurd (Nat.lt_of_succ_lt ht) hs
    · rw [if_neg hs, if_neg ht] at heq
      have hindex : s.index = t.index := Nat.succ.inj (congrArg Slot.index heq)
      cases s
      exact congrArg Slot.mk hindex

/-- The program with one more parameter, for which room is made in front of the slots of wires. -/
def Program.declare (p : Program) (extra : Parameter) : Program :=
  { p with
    instructions := p.instructions.map (.relocate (Slot.makeRoom extra.slot.index))
    parameters := p.parameters ++ [extra]
    slotCount := p.slotCount + 1
    stats := { p.stats with
      slotCount := p.stats.slotCount + 1
      peakLiveSlots := p.stats.peakLiveSlots + 1 } }

/-- The instruction with the slots of wires one further and those of parameters as they were:
outputs and inputs with a wire have the slots one further, and other inputs have the same. -/
structure Instruction.Displaced (g : Graph) (i i' : Instruction) : Prop where
  rest_eq : i' = { i with inputSlots := i'.inputSlots, outputSlots := i'.outputSlots }
  outputs : i'.outputSlots = i.outputSlots.map (Option.map Slot.succ)
  wired : ∀ w ∈ g.wires, w.target.node = i.source →
    i'.inputSlots[w.target.index]? = (i.inputSlots[w.target.index]?).map (Option.map Slot.succ)
  unwired : ∀ index : Nat, (∀ w ∈ g.wires, w.target ≠ ⟨i.source, index⟩) →
    i'.inputSlots[index]? = i.inputSlots[index]?

/-- The program with one more parameter, which comes last, and the slots of wires one further. There
is one more slot, and one more is in use; the rest is the same. -/
structure Program.Displaced (g : Graph) (extra : Parameter) (p p' : Program) : Prop where
  instructions : List.Forall₂ (Instruction.Displaced g) p.instructions p'.instructions
  parameters_eq : p'.parameters = p.parameters ++ [extra]
  rest_eq : p' = { p with
    instructions := p'.instructions
    parameters := p'.parameters
    slotCount := p.slotCount + 1
    stats := { p.stats with
      slotCount := p.stats.slotCount + 1
      peakLiveSlots := p.stats.peakLiveSlots + 1 } }

namespace Graph

variable {g : Graph} {table : Table} {feeds : Feeds} {root : Key} {order : List Key}
  {last : Allocator OutputSocket} {p : Program} {id : ParameterId} {q : ParameterDescription}

/-- A parameter that is declared anew comes last. -/
theorem insertParameter_eq (hnew : g.parameter? id = none) :
    g.insertParameter id q = { g with parameters := g.parameters ++ [(id, q)] } := by
  unfold insertParameter
  rw [hnew]
  rfl

/-- Parameters that are declared stay declared. -/
theorem isSome_parameter?_insertParameter {other : ParameterId} (hnew : g.parameter? id = none)
    (h : (g.parameter? other).isSome) : ((g.insertParameter id q).parameter? other).isSome := by
  rw [insertParameter_eq hnew]
  show ((g.parameters ++ [(id, q)]).lookup other).isSome
  rw [List.lookup_append, Option.isSome_or]
  exact Bool.or_eq_true_iff.2 (.inl h)

/-- A parameter that is declared anew gets the slot after those of the others. -/
theorem placedParameters_insertParameter (hnew : g.parameter? id = none) :
    (g.insertParameter id q).placedParameters =
      g.placedParameters ++ [⟨id, q.name, q.value, ⟨g.parameters.length⟩⟩] := by
  rw [insertParameter_eq hnew]
  show Parameter.allocate 0 (g.parameters ++ [(id, q)]) = _
  rw [Parameter.allocate, List.zipIdx_append, List.map_append, Nat.zero_add]
  rfl

/-- Nodes and wires that are in order stay so, and feed the same inputs. -/
theorem feeds?_insertParameter (hnew : g.parameter? id = none) (h : g.feeds? = .ok feeds) :
    (g.insertParameter id q).feeds? = .ok feeds := by
  have hnodes : ∀ k n, (g.insertParameter id q).node? k = some n →
      n.WellFormed (g.insertParameter id q) := by
    intro k n hn
    have hnode := (exists_feeds_iff.1 ⟨feeds, h⟩).node k n hn
    exact { hnode with
      declared := fun other hrole =>
        isSome_parameter?_insertParameter hnew (hnode.declared other hrole) }
  have hfeeds : g.wires.toList.foldlM g.addFeed ∅ = .ok feeds := by
    unfold feeds? at h
    rw [findSome?_nodeFault.2 (exists_feeds_iff.1 ⟨feeds, h⟩).node] at h
    exact h
  unfold feeds?
  rw [findSome?_nodeFault.2 hnodes]
  exact hfeeds

/-- A parameter that was declared before keeps its slot. -/
theorem parameterSlot?_insertParameter {other : ParameterId} (hnew : g.parameter? id = none)
    (hother : (g.parameter? other).isSome) :
    ((g.insertParameter id q).wiring feeds order).parameterSlot? other =
      ((g.wiring feeds order).parameterSlot? other).map (.makeRoom g.parameters.length) := by
  obtain ⟨found, hfound⟩ := exists_placedParameter hother
  have hslot := slot_lt_of_mem_allocate (List.mem_of_find?_eq_some hfound)
  show (List.find? _ (g.insertParameter id q).placedParameters).map _ =
    ((List.find? _ g.placedParameters).map _).map _
  rw [placedParameters_insertParameter hnew, List.find?_append, hfound]
  exact congrArg some (Slot.makeRoom_of_lt hslot).symm

/-- A wire holds none of the slots of parameters. -/
theorem makeRoom_of_hold {a : Allocator OutputSocket} {s : OutputSocket} {hold : Hold} {count : Nat}
    (h : a.Consistent (List.range count)) (hwire : a.find? s = some hold) :
    hold.slot.makeRoom count = hold.slot.succ := by
  have hapart := h.not_mem_reserved hwire
  rw [List.mem_range] at hapart
  exact Slot.makeRoom_of_le (Nat.not_lt.1 hapart)

section

variable {a a' : Allocator OutputSocket} {slot : Option Slot}
  (hconsistent : a.Consistent (List.range g.parameters.length))
include hconsistent

/-- An input gets the slot of its wire one further, or that of its parameter. -/
theorem bindInput_insertParameter (hnew : g.parameter? id = none) {n : Node} {s : InputSocket}
    (hdeclared : ∀ other, n.role = .parameterRead other → (g.parameter? other).isSome)
    (hbind : (g.wiring feeds order).bindInput n s a = .ok (slot, a')) :
    ((g.insertParameter id q).wiring feeds order).bindInput n s a.shift =
        .ok (slot.map (.makeRoom g.parameters.length), a'.shift) ∧
      a'.Consistent (List.range g.parameters.length) := by
  have hfeeds : ((g.insertParameter id q).wiring feeds order).feeds[s]? = feeds[s]? := rfl
  have hfeeds' : (g.wiring feeds order).feeds[s]? = feeds[s]? := rfl
  unfold Wiring.bindInput at hbind ⊢
  rw [hfeeds]
  rw [hfeeds'] at hbind
  cases hfeed : feeds[s]? with
  | none =>
      simp only [hfeed] at hbind ⊢
      cases hrole : n.role with
      | parameterRead other =>
          simp only [hrole] at hbind ⊢
          rw [parameterSlot?_insertParameter hnew (hdeclared other hrole)]
          cases hbind
          refine ⟨?_, hconsistent⟩
          by_cases hindex : s.index = 0
          · rw [if_pos hindex, if_pos hindex]
          · rw [if_neg hindex, if_neg hindex]
            rfl
      | _ =>
          simp only [hrole] at hbind ⊢
          cases hbind
          exact ⟨rfl, hconsistent⟩
  | some source =>
      simp only [hfeed] at hbind ⊢
      cases huse : a.use source with
      | error fault =>
          rw [huse] at hbind
          cases hbind
      | ok used =>
          obtain ⟨held, between⟩ := used
          rw [huse] at hbind
          cases hbind
          obtain ⟨hafter, hold, hwire, rfl⟩ := hconsistent.of_use huse
          rw [hconsistent.use_shift huse]
          refine ⟨?_, hafter⟩
          rw [Option.map_some, makeRoom_of_hold hconsistent hwire]

/-- An output gets the slot one further. -/
theorem bindOutput_insertParameter {s : OutputSocket}
    (hbind : (g.wiring feeds order).bindOutput s a = .ok (slot, a')) :
    ((g.insertParameter id q).wiring feeds order).bindOutput s a.shift =
        .ok (slot.map (.makeRoom g.parameters.length), a'.shift) ∧
      a'.Consistent (List.range g.parameters.length) := by
  have hregister : a.register s ((g.wiring feeds order).readers.getD s 0) = (slot, a') :=
    Except.ok.inj hbind
  have hafter := hconsistent.register_any s ((g.wiring feeds order).readers.getD s 0)
  have hshift := a.register_shift s ((g.wiring feeds order).readers.getD s 0)
  rw [hregister] at hafter hshift
  refine ⟨?_, hafter⟩
  show Except.ok (a.shift.register s ((g.wiring feeds order).readers.getD s 0)) = _
  rw [hshift]
  cases slot with
  | none => rfl
  | some slot =>
      obtain ⟨hold, hwire, rfl⟩ := Allocator.find?_of_register hregister
      rw [Option.map_some, Option.map_some, makeRoom_of_hold hafter hwire]

/-- A node is placed as before, with its slots moved. -/
theorem place_insertParameter (hnew : g.parameter? id = none)
    (hdeclared : ∀ k n, g.node? k = some n → n.WellFormed g) {k : Key} {i : Instruction}
    (hplace : (g.wiring feeds order).place g table k a = .ok (i, a')) :
    ((g.insertParameter id q).wiring feeds order).place (g.insertParameter id q) table k a.shift =
        .ok (i.relocate (.makeRoom g.parameters.length), a'.shift) ∧
      a'.Consistent (List.range g.parameters.length) := by
  obtain ⟨n, opIndex, inputSlots, between, outputSlots, hn, hknown, hinputs, houtputs, rfl⟩ :=
    Wiring.exists_of_place hplace
  obtain ⟨hinputs', hbetween⟩ := Layout.mapM_map_of_invariant
    (fun index => ((g.insertParameter id q).wiring feeds order).bindInput n ⟨k, index⟩)
    (fun index => index) (Option.map (.makeRoom g.parameters.length)) .shift
    (fun a => a.Consistent (List.range g.parameters.length))
    (fun _ _ _ _ _ hheld hbind =>
      bindInput_insertParameter hheld hnew (hdeclared k n hn).declared hbind)
    hconsistent hinputs
  obtain ⟨houtputs', hafter⟩ := Layout.mapM_map_of_invariant
    (fun index => ((g.insertParameter id q).wiring feeds order).bindOutput ⟨k, index⟩)
    (fun index => index) (Option.map (.makeRoom g.parameters.length)) .shift
    (fun a => a.Consistent (List.range g.parameters.length))
    (fun _ _ _ _ _ hheld hbind => bindOutput_insertParameter hheld hbind) hbetween houtputs
  rw [List.map_id'] at hinputs' houtputs'
  exact ⟨Wiring.place_of_bind hn hknown hinputs' houtputs', hafter⟩

end

/-- A graph in which a parameter is declared anew has the same program with one more parameter. -/
theorem compile_insertParameter (hp : g.compile table = .ok p) (hnew : g.parameter? id = none) :
    (g.insertParameter id q).compile table =
      .ok (p.declare ⟨id, q.name, q.value, ⟨g.parameters.length⟩⟩) := by
  obtain ⟨feeds, root, order, last, instructions, placed, hcompilation, hplaced, rfl⟩ :=
    exists_placed_of_ok hp
  have hfeeds := hcompilation.feeds_eq
  have hnodes := (exists_feeds_iff.1 ⟨feeds, hfeeds⟩).node
  obtain ⟨hplaced', -⟩ := Layout.mapM_map_of_invariant
    (((g.insertParameter id q).wiring feeds order).place (g.insertParameter id q) table)
    (fun k => k) (.relocate (.makeRoom g.parameters.length)) .shift
    (fun a => a.Consistent (List.range g.parameters.length))
    (fun _ _ _ _ _ hheld hplace => place_insertParameter hheld hnew hnodes hplace)
    hcompilation.laid.serves.consistent hplaced
  have hlength : (g.insertParameter id q).parameters.length = g.parameters.length + 1 := by
    rw [insertParameter_eq hnew]
    exact List.length_append
  rw [List.map_id', show (Allocator.reservedFirst g.parameters.length).shift =
    .reservedFirst (g.insertParameter id q).parameters.length by rw [hlength]; rfl] at hplaced'
  rw [compile_of_layOut_eq_ok (feeds?_insertParameter hnew hfeeds) hcompilation.root_eq
    hcompilation.order_eq (layOut_eq_ok hplaced'), placedParameters_insertParameter hnew]
  simp only [Program.declare, Allocator.shift, List.isEmpty_map, List.length_map]
  rfl

namespace Compilation

variable (h : g.Compilation table feeds root order last p)
include h

/-- The slots of outputs come after those of parameters. -/
theorem le_of_mem_outputSlots {i : Instruction} (hi : i ∈ p.instructions) {slot : Slot}
    (hslot : some slot ∈ i.outputSlots) : g.parameters.length ≤ slot.index := by
  obtain ⟨-, n, hn⟩ := h.exists_node hi
  obtain ⟨before, after, opIndex, held, held', -, heq, hserves⟩ := h.exists_placed hi hn
  rw [heq] at hslot
  obtain ⟨index, hheld⟩ := Wiring.mem_outputSlots hslot
  have hapart := hserves.slot?_not_mem hheld
  rw [List.mem_range] at hapart
  exact Nat.not_lt.1 hapart

/-- Making room for one more parameter puts the slots of wires one further. -/
theorem displaced_relocate {i : Instruction} (hi : i ∈ p.instructions) :
    i.Displaced g (i.relocate (.makeRoom g.parameters.length)) where
  rest_eq := rfl
  outputs := by
    refine List.map_congr_left fun output houtput => ?_
    cases output with
    | none => rfl
    | some slot =>
        exact congrArg some (Slot.makeRoom_of_le (h.le_of_mem_outputSlots hi houtput))
  wired w hw htarget := by
    show (i.inputSlots.map _)[w.target.index]? = _
    rw [List.getElem?_map]
    match hslot : i.inputSlots[w.target.index]? with
    | none => rfl
    | some none => rfl
    | some (some slot) =>
        refine congrArg (fun slot => some (some slot)) (Slot.makeRoom_of_le ?_)
        rcases h.inputSlot_cases hi hslot with
          ⟨w', -, -, before, producer, between, after, hsplit, -, hwritten, -⟩ |
          ⟨id, q, hindex, hrole, -, -⟩
        · have hproducer : producer ∈ p.instructions := by rw [hsplit]; simp
          exact h.le_of_mem_outputSlots hproducer (List.mem_of_getElem? hwritten)
        · -- no wire goes to the input that stands for a parameter
          obtain ⟨-, n, hn⟩ := h.exists_node hi
          have hunwired := h.parameter_unwired hn ((h.node_eq hi hn).2.1.symm.trans hrole) w hw
          exact absurd (by rw [← htarget, ← hindex]) hunwired
  unwired index hunwired := by
    show (i.inputSlots.map _)[index]? = _
    rw [List.getElem?_map]
    match hslot : i.inputSlots[index]? with
    | none => rfl
    | some none => rfl
    | some (some slot) =>
        refine congrArg (fun slot => some (some slot)) (Slot.makeRoom_of_lt ?_)
        rcases h.inputSlot_cases hi hslot with ⟨w, hw, htarget, -⟩ | ⟨id, q, -, -, hq, rfl⟩
        · exact absurd htarget (hunwired w hw)
        · exact List.mem_range.1 (h.parameter_slot_mem (List.mem_of_find?_eq_some hq))

/-- One more parameter puts the slots of wires one further. -/
theorem displaced_declare (q : Parameter) (hslot : q.slot.index = g.parameters.length) :
    p.Displaced g q (p.declare q) where
  instructions := by
    show List.Forall₂ _ p.instructions
      (p.instructions.map (Instruction.relocate (.makeRoom q.slot.index)))
    rw [hslot, List.forall₂_map_right_iff, List.forall₂_same]
    exact fun i hi => h.displaced_relocate hi
  parameters_eq := rfl
  rest_eq := rfl

end Compilation

end Graph

end Dataflow
