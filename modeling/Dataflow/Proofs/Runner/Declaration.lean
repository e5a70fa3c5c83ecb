import Dataflow.Proofs.Program.Declaration
import Dataflow.Proofs.Program.Liveness
import Dataflow.Proofs.Runner.Requests

/-!
# One more parameter in a run

Two runners are followed of which one has a parameter more. The slots that instructions read and
write are moved, and hold the same (`Runner.Declared`), so the runners publish the same, whatever
the operations of the table do and whichever parameters are set (`Graph.insertParameter_unseen`).
-/

namespace Dataflow

/-- No slot moves to the one for which room is made. -/
theorem Slot.makeRoom_ne (first : Nat) (s : Slot) : s.makeRoom first ≠ ⟨first⟩ := by
  intro heq
  by_cases h : s.index < first
  · rw [makeRoom_of_lt h] at heq
    exact absurd (congrArg Slot.index heq) (Nat.ne_of_lt h)
  · rw [makeRoom_of_le (Nat.not_lt.1 h)] at heq
    have hindex : s.index + 1 = first := congrArg Slot.index heq
    omega

/-- Changing the first item that is meant changes one in front of the last if there is one, and else
the last or none. -/
theorem getD_updateFirst?_concat {α : Type} (meant : α → Bool) (f : α → α) (items : List α)
    (a : α) : ∃ a', (a' = a ∨ a' = f a) ∧
      (updateFirst? meant f (items ++ [a])).getD (items ++ [a]) =
        (updateFirst? meant f items).getD items ++ [a'] := by
  induction items with
  | nil =>
      show ∃ a', _ ∧ (updateFirst? meant f (a :: [])).getD (a :: []) = [a']
      rw [getD_updateFirst?_cons]
      split
      · exact ⟨f a, .inr rfl, rfl⟩
      · exact ⟨a, .inl rfl, rfl⟩
  | cons first rest ih =>
      obtain ⟨a', ha, hrest⟩ := ih
      rw [List.cons_append, getD_updateFirst?_cons, getD_updateFirst?_cons]
      split
      · exact ⟨a, .inl rfl, rfl⟩
      · rw [hrest]
        exact ⟨a', ha, rfl⟩

namespace Memory

variable {first : Nat}

/-- Empty slots are moved to empty slots, of which there is one more. -/
theorem relocated_fresh {slotCount : Nat} (h : first ≤ slotCount) (source : Random.Source) :
    (fresh slotCount source).Relocated (.makeRoom first) (fresh (slotCount + 1) source) where
  exists_iff slot := by
    unfold fresh
    rw [Array.size_replicate, Array.size_replicate]
    by_cases hslot : slot.index < first
    · rw [Slot.makeRoom_of_lt hslot]
      omega
    · rw [Slot.makeRoom_of_le (Nat.not_lt.1 hslot)]
      exact Nat.succ_lt_succ_iff
  source_eq := rfl
  read_eq slot := by rw [read_fresh, read_fresh]

/-- Parameters in the first slots may be put there, and one more into the slot after these. -/
theorem Relocated.putAll {m m' : Memory} (h : m.Relocated (.makeRoom first) m')
    {parameters : List Parameter} (hslots : ∀ slot ∈ parameters.map (·.slot), slot.index < first)
    {extra : Parameter} (hextra : extra.slot = ⟨first⟩) :
    (m.putAll parameters).Relocated (.makeRoom first) (m'.putAll (parameters ++ [extra])) := by
  induction parameters generalizing m m' with
  | nil =>
      refine h.write_apart (fun slot => ?_) extra.value
      rw [hextra]
      exact slot.makeRoom_ne first
  | cons q rest ih =>
      have hwrite := h.write (Slot.makeRoom_injective first) q.slot q.value
      rw [Slot.makeRoom_of_lt (hslots q.slot List.mem_cons_self)] at hwrite
      exact ih hwrite fun slot hslot => hslots slot (List.mem_cons_of_mem _ hslot)

end Memory

/-- The runners are the same, except that the second one has one more parameter and the slots after
those of the other parameters are one further. The other parameters come first and have the first
slots. -/
structure Runner.Declared (first : Nat) (r r' : Runner) : Prop where
  rest_eq : r' = { r with
    instructions := r'.instructions, parameters := r'.parameters, memory := r'.memory }
  instructions_eq : r'.instructions = r.instructions.map (.relocate (.makeRoom first))
  parameters_eq : ∃ extra, extra.slot = ⟨first⟩ ∧ r'.parameters = r.parameters ++ [extra]
  slots : ∀ slot ∈ r.parameters.map (·.slot), slot.index < first
  memory : r.memory.Relocated (.makeRoom first) r'.memory

/-- What is published does not depend on where the slots are. -/
theorem Runner.published_relocate (r : Runner) (τ : Slot → Slot)
    (instructions : List Instruction) :
    r.published (instructions.map (.relocate τ)) = r.published instructions := by
  unfold published
  cases r.output with
  | none => rfl
  | some index =>
      rw [Option.bind_some, Option.bind_some, List.getElem?_map]
      cases instructions[index]? <;> rfl

namespace Runner.Declared

variable {first : Nat} {r r' : Runner}

/-- Setting a parameter of both, or only the one that the first runner does not have, keeps the
rest the same. -/
theorem set (h : r.Declared first r') (meant : Parameter → Bool) (v : Value) :
    Runner.Declared first
      { r with parameters := (updateFirst? meant (fun q => { q with value := v })
          r.parameters).getD r.parameters }
      { r' with parameters := (updateFirst? meant (fun q => { q with value := v })
          r'.parameters).getD r'.parameters } where
  rest_eq := by rw [h.rest_eq]
  instructions_eq := h.instructions_eq
  parameters_eq := by
    obtain ⟨extra, hslot, hparameters⟩ := h.parameters_eq
    obtain ⟨extra', hextra', hset⟩ :=
      getD_updateFirst?_concat meant (fun q => { q with value := v }) r.parameters extra
    refine ⟨extra', ?_, by rw [hparameters, hset]⟩
    rcases hextra' with rfl | rfl
    · exact hslot
    · exact hslot
  slots := by
    show ∀ slot ∈ List.map (·.slot) (Option.getD (updateFirst? _ _ r.parameters) _), _
    rw [map_updateFirst? meant (fun q : Parameter => { q with value := v }) (fun _ => rfl)]
    exact h.slots
  memory := h.memory

/-- Time may pass alike. -/
theorem wait (h : r.Declared first r') (accumulated : Float32) :
    Runner.Declared first { r with accumulated } { r' with accumulated } where
  rest_eq := by rw [h.rest_eq]
  instructions_eq := h.instructions_eq
  parameters_eq := h.parameters_eq
  slots := h.slots
  memory := h.memory

/-- Both runners evaluate alike. -/
theorem evaluate (h : r.Declared first r') : r'.evaluate.1 = r.evaluate.1 ∧
    r.evaluate.2.Declared first r'.evaluate.2 := by
  by_cases hne : r.instructions = []
  · have hempty : r.instructions.isEmpty = true := List.isEmpty_iff.2 hne
    have hempty' : r'.instructions.isEmpty = true := by rw [h.instructions_eq, hne]; rfl
    simp only [Runner.evaluate, hempty, hempty', if_true]
    exact ⟨trivial, h⟩
  · have hne' : r'.instructions ≠ [] := by
      rw [h.instructions_eq]
      exact fun hnil => hne (List.map_eq_nil_iff.1 hnil)
    obtain ⟨extra, hslot, hparameters⟩ := h.parameters_eq
    have htable : r'.table = r.table := by rw [h.rest_eq]
    have hput := h.memory.putAll h.slots hslot
    obtain ⟨hrun, hmemory⟩ := hput.executeAll (Slot.makeRoom_injective first) r.instructions
    rw [evaluate_of_ne_nil hne, evaluate_of_ne_nil hne', htable, h.instructions_eq, hparameters]
    refine ⟨rfl, ?_, hrun, ⟨extra, hslot, rfl⟩, h.slots, hmemory⟩
    simp only [hrun, published_relocate]
    rw [h.rest_eq]
    rfl

/-- Both runners perform an action alike. -/
theorem perform (h : r.Declared first r') (action : Action) :
    (r'.perform action).1 = (r.perform action).1 ∧
      (r.perform action).2.Declared first (r'.perform action).2 := by
  cases action with
  | setParameter id v =>
      refine ⟨rfl, ?_⟩
      rw [perform_setParameter, perform_setParameter]
      exact h.set _ v
  | setParameterByName name v =>
      refine ⟨rfl, ?_⟩
      rw [perform_setParameterByName, perform_setParameterByName]
      exact h.set _ v
  | tick delta =>
      have hadvance : r'.config.advance r'.accumulated delta =
          r.config.advance r.accumulated delta := by rw [h.rest_eq]
      rw [perform_tick, perform_tick, hadvance]
      split
      · exact (h.wait _).evaluate
      · exact ⟨rfl, h.wait _⟩
  | evaluate => exact h.evaluate

/-- Once the runners load a program they are the same. -/
theorem load_eq (h : r.Declared first r') (p : Program) : r'.load p = r.load p := by
  have hsource := h.memory.source_eq
  unfold Runner.load
  rw [hsource, h.rest_eq]

/-- The runners give the same answers. -/
theorem answers_eq (h : r.Declared first r') (requests : List Request) :
    r'.answers requests = r.answers requests := by
  induction requests generalizing r r' with
  | nil => rfl
  | cons request rest ih =>
      cases request with
      | load p => rw [answers, answers, serve, serve, h.load_eq]
      | act action =>
          obtain ⟨hevaluated, hdeclared⟩ := h.perform action
          have houtputs : (r'.perform action).2.outputs = (r.perform action).2.outputs := by
            rw [hdeclared.rest_eq]
          rw [answers, answers, serve, serve, hevaluated, houtputs, ih hdeclared]

end Runner.Declared

namespace Graph

variable {g : Graph} {table : Table} {p : Program} {id : ParameterId}

/-- The slots of parameters are among those of the program. -/
theorem Compilation.length_parameters_le {feeds : Feeds} {root : Key} {order : List Key}
    {last : Allocator OutputSocket} (h : g.Compilation table feeds root order last p) :
    g.parameters.length ≤ p.slotCount := by
  rw [h.slotCount_eq]
  exact h.laid.next_le

/-- Runners that load the program of a graph and the one with one more parameter go together. -/
theorem Compilation.declared_load {feeds : Feeds} {root : Key} {order : List Key}
    {last : Allocator OutputSocket} (h : g.Compilation table feeds root order last p)
    {extra : Parameter} (hextra : extra.slot = ⟨g.parameters.length⟩) (r : Runner) :
    (r.load p).Declared g.parameters.length (r.load (p.declare extra)) where
  rest_eq := rfl
  instructions_eq := by
    show p.instructions.map (Instruction.relocate (.makeRoom extra.slot.index)) = _
    rw [hextra]
    rfl
  parameters_eq := ⟨extra, hextra, rfl⟩
  slots slot hslot := by
    obtain ⟨q, hq, rfl⟩ := List.mem_map.1 hslot
    exact List.mem_range.1 (h.parameter_slot_mem hq)
  memory := Memory.relocated_fresh h.length_parameters_le r.memory.source

/-- Declaring one more parameter changes nothing that is published. If a graph has a program, it
also has one with any parameter that is not declared yet: the instructions come in the same order
with the same operations, literals and values for unwired inputs, the other parameters keep their
slots, the new one has the slot after these, every slot of a wire is one further, and there is one
slot more, also at the peak. Runners that start with the two programs, or load them, give the same
answers to the same requests, whatever the operations of the table do. -/
theorem insertParameter_unseen (hp : g.compile table = .ok p) (hnew : g.parameter? id = none)
    (q : ParameterDescription) : ∃ p', (g.insertParameter id q).compile table = .ok p' ∧
      p.Displaced g ⟨id, q.name, q.value, ⟨g.parameters.length⟩⟩ p' ∧
      ∀ requests : List Request,
        (∀ config entropy, (Runner.start p' config entropy).answers requests =
          (Runner.start p config entropy).answers requests) ∧
        ∀ r : Runner, (r.load p').answers requests = (r.load p).answers requests := by
  obtain ⟨feeds, root, order, last, hcompilation⟩ := compilation_of_ok hp
  refine ⟨_, compile_insertParameter hp hnew, hcompilation.displaced_declare _ rfl,
    fun requests => ?_⟩
  have hload : ∀ r : Runner,
      (r.load (p.declare ⟨id, q.name, q.value, ⟨g.parameters.length⟩⟩)).answers requests =
        (r.load p).answers requests :=
    fun r => (hcompilation.declared_load rfl r).answers_eq requests
  refine ⟨fun config entropy => ?_, hload⟩
  -- a start is a load into a runner that has done nothing
  exact hload (.start p config entropy)

/-- A second parameter of a graph moves the slots of its wires and changes no answer. -/
theorem overgrown_declares : overgrown.compile Catalog.table = .ok overgrownProgram ∧
    overgrown.parameter? ⟨8⟩ = none ∧
    ∃ p', (overgrown.insertParameter ⟨8⟩ ⟨"bias", .float (.plain 5)⟩).compile Catalog.table =
        .ok p' ∧
      overgrownProgram.Displaced overgrown ⟨⟨8⟩, "bias", .float (.plain 5), ⟨1⟩⟩ p' ∧
      (Runner.start p' .default (.ofSeed 1)).answers
          [.act .evaluate, .act (.setParameterByName "bias" (.float (.plain 6))), .act .evaluate] =
        (Runner.start overgrownProgram .default (.ofSeed 1)).answers
          [.act .evaluate, .act (.setParameterByName "bias" (.float (.plain 6))),
            .act .evaluate] := by
  have hnew : overgrown.parameter? ⟨8⟩ = none := rfl
  obtain ⟨p', hp', hdisplaced, hanswers⟩ :=
    insertParameter_unseen compile_overgrown hnew ⟨"bias", .float (.plain 5)⟩
  exact ⟨compile_overgrown, hnew, p', hp', hdisplaced, (hanswers _).1 _ _⟩

end Graph

end Dataflow
