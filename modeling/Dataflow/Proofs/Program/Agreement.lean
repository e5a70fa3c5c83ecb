import Dataflow.Proofs.Program.Execution

/-!
# Memories that agree off some slots

Instructions that read no hidden slot cannot tell memories apart that agree in all other slots. They
do the same on both, whatever their operations do, and leave memories that agree in these slots
again (`Memory.AgreeOff.executeAll`). It does not matter whether they write hidden slots.
-/

namespace Dataflow

/-- Two memories have as many slots, hold the same in all slots that are not hidden, and draw the
same numbers. -/
structure Memory.AgreeOff (hidden : Slot → Prop) (m m' : Memory) : Prop where
  size_eq : m'.slots.size = m.slots.size
  source_eq : m'.source = m.source
  read_eq : ∀ slot, ¬ hidden slot → m'.read slot = m.read slot

/-- The instruction reads no hidden slot. -/
def Instruction.Avoids (hidden : Slot → Prop) (i : Instruction) : Prop :=
  ∀ slot, some slot ∈ i.inputSlots → ¬ hidden slot

/-- Instructions that have run read no other slots than before. -/
theorem avoids_executeAll {hidden : Slot → Prop} {table : Table} {instructions : List Instruction}
    {m : Memory} (h : ∀ i ∈ instructions, i.Avoids hidden) :
    ∀ i ∈ (executeAll table instructions m).1, i.Avoids hidden := by
  intro i hi
  have hslots := List.mem_map_of_mem (f := (·.inputSlots)) hi
  rw [map_inputSlots_executeAll] at hslots
  obtain ⟨j, hj, heq⟩ := List.mem_map.1 hslots
  unfold Instruction.Avoids
  rw [← heq]
  exact h j hj

namespace Memory.AgreeOff

variable {hidden : Slot → Prop} {m m' : Memory} {i : Instruction} {table : Table}

/-- Every memory agrees with itself. -/
theorem refl (m : Memory) : m.AgreeOff hidden m := ⟨rfl, rfl, fun _ _ => rfl⟩

section

variable (h : m.AgreeOff hidden m')
include h

/-- The same value may be put into any slot. -/
theorem write (s : Slot) (v : Value) : (m.write s v).AgreeOff hidden (m'.write s v) where
  size_eq := by rw [size_write, size_write, h.size_eq]
  source_eq := h.source_eq
  read_eq slot hslot := by
    by_cases hs : s = slot
    · subst hs
      exact read_write_congr h.size_eq
    · rw [read_write_other hs, read_write_other hs, h.read_eq slot hslot]

/-- Different values may be put into a hidden slot. -/
theorem write_hidden {s : Slot} (hs : hidden s) (v v' : Value) :
    (m.write s v).AgreeOff hidden (m'.write s v') where
  size_eq := by rw [size_write, size_write, h.size_eq]
  source_eq := h.source_eq
  read_eq slot hslot := by
    have hne : s ≠ slot := fun heq => hslot (heq ▸ hs)
    rw [read_write_other hne, read_write_other hne, h.read_eq slot hslot]

/-- An instruction may give out the same values. -/
theorem giveAll (i : Instruction) (writes : Writes) :
    (i.giveAll m writes).AgreeOff hidden (i.giveAll m' writes) := by
  induction writes generalizing m m' with
  | nil => exact h
  | cons entry rest ih =>
      have hfirst : (i.giveOut m entry.1 entry.2).AgreeOff hidden
          (i.giveOut m' entry.1 entry.2) := by
        unfold Instruction.giveOut
        split
        · exact h.write _ _
        · exact h
      exact ih hfirst

/-- An instruction that reads no hidden slot sees the same. -/
theorem refresh_eq (hreads : i.Avoids hidden) : i.refresh m' = i.refresh m :=
  Instruction.refresh_congr fun slot hslot => h.read_eq slot (hreads slot hslot)

/-- An instruction that reads no hidden slot does the same. -/
theorem execute (hreads : i.Avoids hidden) : (i.execute table m').1 = (i.execute table m).1 ∧
    (i.execute table m).2.AgreeOff hidden (i.execute table m').2 := by
  rw [Instruction.execute_fst, Instruction.execute_fst]
  refine ⟨h.refresh_eq hreads, ?_⟩
  unfold Instruction.execute
  rw [h.refresh_eq hreads, h.source_eq]
  simp only
  split
  · exact h
  · have hdrawn : ∀ source, ({ m with source } : Memory).AgreeOff hidden { m' with source } :=
      fun source => ⟨h.size_eq, rfl, h.read_eq⟩
    exact (hdrawn _).giveAll _ _

/-- Instructions that read no hidden slot do the same. -/
theorem executeAll {instructions : List Instruction}
    (hreads : ∀ i ∈ instructions, i.Avoids hidden) :
    (executeAll table instructions m').1 = (executeAll table instructions m).1 ∧
      (executeAll table instructions m).2.AgreeOff hidden
        (executeAll table instructions m').2 := by
  induction instructions generalizing m m' with
  | nil => exact ⟨rfl, h⟩
  | cons i rest ih =>
      obtain ⟨hfirst, hagree⟩ := h.execute (hreads i List.mem_cons_self)
      obtain ⟨hrest, hlast⟩ := ih hagree fun j hj => hreads j (List.mem_cons_of_mem _ hj)
      rw [executeAll_cons, executeAll_cons, hfirst, hrest]
      exact ⟨rfl, hlast⟩

end

end Memory.AgreeOff

end Dataflow
