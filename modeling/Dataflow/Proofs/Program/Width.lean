import Mathlib.Data.Finset.Lattice.Fold
import Mathlib.Data.Finset.Union
import Mathlib.Data.Fintype.Card
import Mathlib.Order.Lattice.Nat
import Mathlib.Order.Nat
import Dataflow.Proofs.Program.Liveness

/-!
# How many slots a program needs

An output is in use from its producer to the last instruction that reads it. The width of a program
is the greatest number of outputs that are in use between one instruction and the next. Every way
to keep these outputs and the parameters apart takes as many slots as there are parameters, and the
width more (`Assignment.Separates.le_card_used`), and a program has no more than these
(`compile_slotCount_least`). The peak of the allocator is followed from node to node by
`Laid.peak_eq`.
-/

namespace Dataflow

/-- The outputs of placed nodes that an input of the other nodes reads. -/
def Graph.crossing (g : Graph) (placed rest : List Key) : Finset OutputSocket :=
  ((g.wires.toList.filter fun w => w.source.node ∈ placed ∧ w.target.node ∈ rest).map
    (·.source)).toFinset

namespace Program

/-- The outputs of the instructions up to a place that an input of a later instruction reads. -/
def crossing (p : Program) (g : Graph) (place : Nat) : Finset OutputSocket :=
  g.crossing ((p.instructions.take (place + 1)).map (·.source))
    ((p.instructions.drop (place + 1)).map (·.source))

/-- The greatest number of outputs that are in use after an instruction. -/
def width (p : Program) (g : Graph) : Nat :=
  (Finset.range p.instructions.length).sup fun place => (p.crossing g place).card

/-- As many outputs are in use at one time as there are wires, at most. -/
theorem width_le (p : Program) (g : Graph) : p.width g ≤ g.wires.size := by
  refine Finset.sup_le fun place _ => ?_
  calc (p.crossing g place).card
    _ ≤ _ := List.toFinset_card_le _
    _ ≤ g.wires.toList.length := by
      rw [List.length_map]
      exact List.length_filter_le _ _

/-- The slot that an output writes. -/
def outputSlot? (p : Program) (s : OutputSocket) : Option Slot :=
  (p.instructions.find? (·.source = s.node)).bind fun i => (i.outputSlots[s.index]?).join

end Program

/-- A slot for each parameter, by its place in the declaration, and for each output. -/
structure Assignment (g : Graph) where
  parameter : Fin g.parameters.length → Slot
  output : OutputSocket → Slot

namespace Assignment

variable {g : Graph}

/-- Parameters, and outputs that are in use after the same instruction, have different slots, and no
output that is in use shares one with a parameter. -/
structure Separates (a : Assignment g) (p : Program) : Prop where
  parameters : Function.Injective a.parameter
  outputs : ∀ place < p.instructions.length, Set.InjOn a.output (p.crossing g place)
  apart : ∀ place < p.instructions.length, ∀ s ∈ p.crossing g place, ∀ index,
    a.output s ≠ a.parameter index

/-- The slots of the parameters and of the outputs that are in use. -/
def used (a : Assignment g) (p : Program) : Finset Slot :=
  Finset.univ.image a.parameter ∪
    ((Finset.range p.instructions.length).biUnion (p.crossing g)).image a.output

/-- The slots that a program gives to parameters and outputs. Outputs that are not in use have the
first slot here. -/
def ofProgram (g : Graph) (p : Program) : Assignment g where
  parameter index := (p.parameters.map (·.slot)).getD index ⟨0⟩
  output s := (p.outputSlot? s).getD ⟨0⟩

/-- Parameters and outputs that are in use after one instruction have as many slots as they are. -/
theorem Separates.card_crossing_le {a : Assignment g} {p : Program} (h : a.Separates p)
    {place : Nat} (hplace : place < p.instructions.length) :
    g.parameters.length + (p.crossing g place).card ≤ (a.used p).card := by
  have hparameters : (Finset.univ.image a.parameter).card = g.parameters.length := by
    rw [Finset.card_image_of_injective _ h.parameters, Finset.card_univ, Fintype.card_fin]
  have houtputs : ((p.crossing g place).image a.output).card = (p.crossing g place).card :=
    Finset.card_image_of_injOn (h.outputs place hplace)
  have hdisjoint : Disjoint (Finset.univ.image a.parameter)
      ((p.crossing g place).image a.output) := by
    rw [Finset.disjoint_left]
    intro slot hparameter houtput
    obtain ⟨index, -, rfl⟩ := Finset.mem_image.1 hparameter
    obtain ⟨s, hs, hslot⟩ := Finset.mem_image.1 houtput
    exact h.apart place hplace s hs index hslot
  have hcrossing : p.crossing g place ⊆
      (Finset.range p.instructions.length).biUnion (p.crossing g) :=
    Finset.subset_biUnion_of_mem (p.crossing g) (Finset.mem_range.2 hplace)
  calc g.parameters.length + (p.crossing g place).card
    _ = (Finset.univ.image a.parameter ∪ (p.crossing g place).image a.output).card := by
      rw [Finset.card_union_of_disjoint hdisjoint, hparameters, houtputs]
    _ ≤ (a.used p).card :=
      Finset.card_le_card (Finset.union_subset_union_right (Finset.image_subset_image hcrossing))

/-- Whatever keeps parameters and outputs apart has a slot for each parameter and as many more as
the program is wide. -/
theorem Separates.le_card_used {a : Assignment g} {p : Program} (h : a.Separates p)
    (hne : p.instructions ≠ []) : g.parameters.length + p.width g ≤ (a.used p).card := by
  have hrange : (Finset.range p.instructions.length).Nonempty :=
    Finset.nonempty_range_iff.2 (List.length_pos_iff.2 hne).ne'
  obtain ⟨place, hplace, hwidth⟩ := Finset.exists_mem_eq_sup _ hrange
    fun place => (p.crossing g place).card
  rw [Program.width, hwidth]
  exact h.card_crossing_le (Finset.mem_range.1 hplace)

end Assignment

/-- As many slots are in use as are reserved and as there are outputs that are ready and will be
read. -/
theorem Allocator.Serves.live_eq {a : Allocator OutputSocket} {reserved : List Nat}
    {ready : OutputSocket → Prop} {pending : List OutputSocket}
    (h : a.Serves reserved ready pending) {outputs : Finset OutputSocket}
    (hmem : ∀ s, s ∈ outputs ↔ ready s ∧ s ∈ pending) :
    a.live = reserved.length + outputs.card := by
  have hheld : (a.held.map (·.1)).toFinset = outputs := by
    ext s
    rw [List.mem_toFinset, hmem, ← h.slot?_isSome_iff, List.mem_map]
    simp only [slot?, Option.map_eq_some_iff, h.consistent.find?_eq_some]
    constructor
    · rintro ⟨⟨s, hold⟩, hentry, rfl⟩
      exact ⟨_, hold, hentry, rfl⟩
    · rintro ⟨_, hold, hentry, -⟩
      exact ⟨_, hentry, rfl⟩
  rw [h.consistent.live_eq, ← hheld, List.toFinset_card_of_nodup h.consistent.keys,
    List.length_map]

/-- The outputs in use are those of placed nodes that are sources of the other nodes. -/
theorem Graph.mem_crossing {g : Graph} {feeds : Feeds} (hfeeds : g.feeds? = .ok feeds)
    {placed rest : List Key} {s : OutputSocket} :
    s ∈ g.crossing placed rest ↔ s.node ∈ placed ∧ s ∈ rest.flatMap (g.sources feeds) := by
  simp only [crossing, List.mem_toFinset, List.mem_map, List.mem_filter, decide_eq_true_eq,
    Array.mem_toList_iff, List.mem_flatMap, mem_sources hfeeds]
  constructor
  · rintro ⟨⟨_, ⟨k, index⟩⟩, ⟨hw, hplaced, hrest⟩, rfl⟩
    exact ⟨hplaced, k, hrest, index, hw⟩
  · rintro ⟨hplaced, k, hrest, index, hw⟩
    exact ⟨_, ⟨hw, hplaced, hrest⟩, rfl⟩

/-- The greatest of some values is the first or the greatest of the others. -/
theorem sup_range_succ (n : Nat) (f : Nat → Nat) : (Finset.range (n + 1)).sup f =
    max (f 0) ((Finset.range n).sup fun i => f (i + 1)) := by
  rw [Finset.range_add_one', Finset.sup_insert, Finset.sup_map]
  rfl

namespace Laid

variable {w : Wiring} {g : Graph} {table : Table} {reserved : List Nat} {placed rest : List Key}
  {a last : Allocator OutputSocket} {instructions : List Instruction}

/-- The peak is that of the first allocator, or the slots that are reserved and the greatest number
of outputs that are in use after a node. -/
theorem peak_eq (hfeeds : g.feeds? = .ok w.feeds)
    (h : Laid w g table reserved placed a rest instructions last) :
    last.peak = max a.peak (reserved.length + (Finset.range rest.length).sup fun place =>
      (g.crossing (placed ++ rest.take (place + 1)) (rest.drop (place + 1))).card) := by
  induction h with
  | @nil placed a serves =>
      have hlength := serves.consistent.length_eq
      have hpeak := serves.consistent.peak_eq
      show a.peak = max a.peak (reserved.length + 0)
      omega
  | @cons placed rest a a' last k n opIndex instructions node known serves sources peak kept
      tail ih =>
      -- what is in use after the first node is what its allocator counts
      have hlive : a'.live = reserved.length + (g.crossing (placed ++ [k]) rest).card :=
        tail.serves.live_eq fun s => Graph.mem_crossing hfeeds
      rw [ih, peak, hlive, List.length_cons, sup_range_succ, Nat.max_assoc, Nat.add_max_add_left]
      simp

/-- After some of the nodes the allocator serves the others. What an output holds then it has held
before the first, or its instruction writes. -/
theorem exists_cut (hfeeds : g.feeds? = .ok w.feeds)
    (h : Laid w g table reserved placed a rest instructions last) {before after : List Key}
    (hsplit : rest = before ++ after) :
    ∃ cut : Allocator OutputSocket,
      cut.Serves reserved (·.node ∈ placed ++ before) (after.flatMap (g.sources w.feeds)) ∧
      ∀ s slot, cut.slot? s = some slot → a.slot? s = some slot ∨
        ∃ i ∈ instructions, i.source = s.node ∧ i.outputSlots[s.index]? = some (some slot) := by
  induction h generalizing before with
  | @nil placed a serves =>
      obtain ⟨rfl, rfl⟩ := List.nil_eq_append_iff.1 hsplit
      exact ⟨a, by simpa using serves, fun _ _ hslot => .inl hslot⟩
  | @cons placed rest a a' last k n opIndex instructions node known serves sources peak kept
      tail ih =>
      cases before with
      | nil =>
          rw [List.nil_append] at hsplit
          subst hsplit
          exact ⟨a, by simpa using serves, fun _ _ hslot => .inl hslot⟩
      | cons first before =>
          obtain ⟨rfl, hrest⟩ := List.cons.inj hsplit
          obtain ⟨cut, hcut, hheld⟩ := ih hrest
          refine ⟨cut, by simpa using hcut, fun s slot hslot => ?_⟩
          rcases hheld s slot hslot with hslot' | ⟨i, hi, hwritten⟩
          · by_cases hnode : s.node = k
            · -- the output got its slot when its node was placed
              subst hnode
              have hread := (tail.serves.slot?_isSome_iff.1 ⟨slot, hslot'⟩).2
              refine .inr ⟨_, List.mem_cons_self, rfl, ?_⟩
              rw [Wiring.outputSlots_getElem? (Graph.index_lt_of_source hfeeds hread node)]
              exact congrArg some hslot'
            · exact .inl (kept s slot hnode hslot')
          · exact .inr ⟨i, List.mem_cons_of_mem _ hi, hwritten⟩

end Laid

namespace Graph

variable {g : Graph} {table : Table} {p : Program}

namespace Compilation

variable {feeds : Feeds} {root : Key} {order : List Key} {last : Allocator OutputSocket}
  (h : g.Compilation table feeds root order last p)
include h

/-- The slots are those of the parameters, and as many more as the program is wide. -/
theorem slotCount_eq_width : p.slotCount = g.parameters.length + p.width g := by
  have hpeak := h.laid.peak_eq h.feeds_eq
  have hfirst : (Allocator.reservedFirst g.parameters.length).peak = g.parameters.length := rfl
  have hwidth : ((Finset.range order.length).sup fun place =>
      (g.crossing ([] ++ order.take (place + 1)) (order.drop (place + 1))).card) = p.width g := by
    simp only [Program.width, Program.crossing, List.map_take, List.map_drop, h.map_source,
      List.nil_append]
    rw [← h.map_source, List.length_map]
  rw [hwidth, hfirst, List.length_range] at hpeak
  rw [h.slotCount_eq, ← h.laid.serves_last.consistent.peak_eq, hpeak]
  omega

/-- The slot that an instruction writes is that of its output. -/
theorem outputSlot?_eq {i : Instruction} (hi : i ∈ p.instructions) {s : OutputSocket}
    {slot : Slot} (hsource : i.source = s.node)
    (hslot : i.outputSlots[s.index]? = some (some slot)) : p.outputSlot? s = some slot := by
  have hsome : (p.instructions.find? (·.source = s.node)).isSome :=
    List.find?_isSome.2 ⟨i, hi, by simpa using hsource⟩
  obtain ⟨j, hj⟩ := Option.isSome_iff_exists.1 hsome
  have hsame : j.source = i.source := by simpa [hsource] using List.find?_some hj
  -- the node has one instruction, so the one that is found is this
  obtain rfl := List.inj_on_of_nodup_map h.nodup_source (List.mem_of_find?_eq_some hj) hi hsame
  rw [Program.outputSlot?, hj, Option.bind_some, hslot]
  rfl

/-- After an instruction an allocator serves what follows. In it each output that is in use holds
the slot that the program gives it. -/
theorem exists_serves (place : Nat) : ∃ cut : Allocator OutputSocket, ∃ ready pending,
    cut.Serves (List.range g.parameters.length) ready pending ∧
      ∀ s ∈ p.crossing g place, cut.slot? s = some ((Assignment.ofProgram g p).output s) ∧
        ((Assignment.ofProgram g p).output s).index < p.slotCount := by
  obtain ⟨cut, hserves, hheld⟩ := h.laid.exists_cut h.feeds_eq
    (List.take_append_drop (place + 1) order).symm
  refine ⟨cut, _, _, hserves, fun s hs => ?_⟩
  rw [Program.crossing, List.map_take, List.map_drop, h.map_source, mem_crossing h.feeds_eq] at hs
  obtain ⟨slot, hslot⟩ := hserves.slot?_isSome_iff.2 hs
  rcases hheld s slot hslot with hbefore | ⟨i, hi, hsource, hwritten⟩
  · cases hbefore
  · have houtput : (Assignment.ofProgram g p).output s = slot := by
      show (p.outputSlot? s).getD ⟨0⟩ = slot
      rw [h.outputSlot?_eq hi hsource hwritten, Option.getD_some]
    rw [houtput]
    exact ⟨hslot, h.slot_lt_slotCount hi (List.mem_of_getElem? hwritten)⟩

/-- The parameters have the first slots. -/
theorem parameter_eq (index : Fin g.parameters.length) :
    (Assignment.ofProgram g p).parameter index = ⟨index⟩ := by
  have hslots := map_slot_allocate 0 g.parameters
  rw [← placedParameters, ← h.parameters_eq] at hslots
  show (p.parameters.map (·.slot)).getD index ⟨0⟩ = ⟨index⟩
  rw [hslots]
  simp

/-- The slots of a program keep apart its parameters and the outputs that are in use. -/
theorem separates : (Assignment.ofProgram g p).Separates p where
  parameters index index' hsame := by
    rw [h.parameter_eq, h.parameter_eq] at hsame
    exact Fin.ext (congrArg Slot.index hsame)
  outputs place _ s hs s' hs' hsame := by
    obtain ⟨cut, ready, pending, hserves, hheld⟩ := h.exists_serves place
    exact hserves.slot?_inj (hheld s hs).1 (hsame ▸ (hheld s' hs').1)
  apart place _ s hs index hsame := by
    obtain ⟨cut, ready, pending, hserves, hheld⟩ := h.exists_serves place
    have hreserved := hserves.slot?_not_mem (hheld s hs).1
    rw [hsame, h.parameter_eq] at hreserved
    exact hreserved (List.mem_range.2 index.isLt)

/-- A program uses no slots but its own. -/
theorem card_used_le : ((Assignment.ofProgram g p).used p).card ≤ p.slotCount := by
  have hsubset : (Assignment.ofProgram g p).used p ⊆ (Finset.range p.slotCount).image Slot.mk := by
    intro slot hslot
    refine Finset.mem_image.2 ⟨slot.index, Finset.mem_range.2 ?_, rfl⟩
    rcases Finset.mem_union.1 hslot with hparameter | houtput
    · obtain ⟨index, -, rfl⟩ := Finset.mem_image.1 hparameter
      rw [h.parameter_eq, h.slotCount_eq_width]
      exact Nat.lt_of_lt_of_le index.isLt (Nat.le_add_right _ _)
    · obtain ⟨s, hs, rfl⟩ := Finset.mem_image.1 houtput
      obtain ⟨place, -, hcrossing⟩ := Finset.mem_biUnion.1 hs
      obtain ⟨cut, ready, pending, -, hheld⟩ := h.exists_serves place
      exact (hheld s hcrossing).2
  have hle := (Finset.card_le_card hsubset).trans Finset.card_image_le
  rwa [Finset.card_range] at hle

end Compilation

/-- There are at most as many slots as parameters and wires, so an index of 32 bits names each of
them as long as there are fewer than `2 ^ 32` of these. -/
theorem compile_slotCount_le (h : g.compile table = .ok p) :
    p.slotCount ≤ g.parameters.length + g.wires.size := by
  obtain ⟨feeds, root, order, last, hcompilation⟩ := compilation_of_ok h
  rw [hcompilation.slotCount_eq_width]
  exact Nat.add_le_add_left (p.width_le g) _

/-- A program has as many slots as it ever has in use: one for each parameter, and as many more as
outputs are in use after one of its instructions. Its slots keep apart what is in use at the same
time, and nothing that does so takes fewer. -/
theorem compile_slotCount_least (h : g.compile table = .ok p) :
    p.stats.slotCount = p.slotCount ∧ p.stats.peakLiveSlots = p.slotCount ∧
    p.slotCount = g.parameters.length + p.width g ∧
    (Assignment.ofProgram g p).Separates p ∧
    ((Assignment.ofProgram g p).used p).card = p.slotCount ∧
    ∀ a : Assignment g, a.Separates p → p.slotCount ≤ (a.used p).card := by
  obtain ⟨feeds, root, order, last, hcompilation⟩ := compilation_of_ok h
  have hleast : ∀ a : Assignment g, a.Separates p → p.slotCount ≤ (a.used p).card := by
    intro a ha
    rw [hcompilation.slotCount_eq_width]
    exact ha.le_card_used hcompilation.instructions_ne_nil
  refine ⟨?_, ?_, hcompilation.slotCount_eq_width, hcompilation.separates, ?_, hleast⟩
  · rw [hcompilation.stats_eq, hcompilation.slotCount_eq]
  · rw [hcompilation.stats_eq, hcompilation.slotCount_eq]
    exact hcompilation.laid.serves_last.consistent.peak_eq
  · exact Nat.le_antisymm hcompilation.card_used_le (hleast _ hcompilation.separates)

/-- Two outputs that are in use at the same time need two slots besides that of the parameter. -/
theorem overgrown_slotCount_least : overgrown.compile Catalog.table = .ok overgrownProgram ∧
    overgrownProgram.slotCount = 3 ∧ overgrownProgram.width overgrown = 2 ∧
    ∀ a : Assignment overgrown, a.Separates overgrownProgram →
      3 ≤ (a.used overgrownProgram).card := by
  obtain ⟨-, -, hwidth, -, -, hleast⟩ := compile_slotCount_least compile_overgrown
  have hparameters : overgrown.parameters.length = 1 := rfl
  have hslots : overgrownProgram.slotCount = 3 := rfl
  exact ⟨compile_overgrown, hslots, by omega, hleast⟩

end Graph

end Dataflow
