import Mathlib.Logic.Function.Basic
import Dataflow.Proofs.Program.Execution

/-!
# Instructions with other slots

Instructions see the values in their slots and not where these are. So if different slots are put
in place of different slots, and these hold the same values, instructions do the same, whatever
their operations do, and the slots hold the same values again (`Memory.Relocated.executeAll`).
There may be further slots, which are left alone.
-/

namespace Dataflow

/-- The instruction with other slots in place of its own. -/
def Instruction.relocate (τ : Slot → Slot) (i : Instruction) : Instruction :=
  { i with
    inputSlots := i.inputSlots.map (Option.map τ)
    outputSlots := i.outputSlots.map (Option.map τ) }

/-- What one memory holds in a slot the other one holds in the slot that takes its place, which
exists exactly if the slot does, and both draw the same numbers. -/
structure Memory.Relocated (τ : Slot → Slot) (m m' : Memory) : Prop where
  exists_iff : ∀ slot, (τ slot).index < m'.slots.size ↔ slot.index < m.slots.size
  source_eq : m'.source = m.source
  read_eq : ∀ slot, m'.read (τ slot) = m.read slot

/-- An operation does not see which slots there are. -/
theorem Instruction.invocation_relocate (τ : Slot → Slot) (i : Instruction) :
    (i.relocate τ).invocation = i.invocation := by
  have hwired : (i.inputSlots.map (Option.map τ)).map (·.isSome) =
      i.inputSlots.map (·.isSome) := by
    rw [List.map_map]
    exact List.map_congr_left fun slot _ => Option.isSome_map
  unfold invocation
  rw [← hwired]
  rfl

namespace Memory

variable {τ : Slot → Slot} {m m' : Memory} {i : Instruction} {table : Table}

/-- Nothing is put into a slot that does not exist. -/
theorem read_write_of_le {s : Slot} (h : m.slots.size ≤ s.index) (v : Value) :
    (m.write s v).read s = .empty := by
  simp [read, write, Array.getD_eq_getD_getElem?, Nat.not_lt.2 h]

namespace Relocated

variable (h : m.Relocated τ m')
include h

/-- A value may be put into a slot that takes the place of none. -/
theorem write_apart {s : Slot} (hs : ∀ slot, τ slot ≠ s) (v : Value) :
    m.Relocated τ (m'.write s v) where
  exists_iff slot := by rw [size_write, h.exists_iff]
  source_eq := h.source_eq
  read_eq slot := by rw [read_write_other (Ne.symm (hs slot)), h.read_eq]

/-- The same value may be put into a slot and the one in its place. -/
theorem write (hτ : Function.Injective τ) (s : Slot) (v : Value) :
    (m.write s v).Relocated τ (m'.write (τ s) v) where
  exists_iff slot := by rw [size_write, size_write, h.exists_iff]
  source_eq := h.source_eq
  read_eq slot := by
    by_cases hs : s = slot
    · subst hs
      by_cases hsize : s.index < m.slots.size
      · rw [read_write_same hsize, read_write_same ((h.exists_iff s).2 hsize)]
      · have hsize' := (h.exists_iff s).not.2 hsize
        rw [read_write_of_le (Nat.not_lt.1 hsize), read_write_of_le (Nat.not_lt.1 hsize')]
    · rw [read_write_other hs, read_write_other (hτ.ne hs), h.read_eq]

/-- The same values may be given out. -/
theorem giveAll (hτ : Function.Injective τ) (i : Instruction) (writes : Writes) :
    (i.giveAll m writes).Relocated τ ((i.relocate τ).giveAll m' writes) := by
  induction writes generalizing m m' with
  | nil => exact h
  | cons entry rest ih =>
      have hfirst : (i.giveOut m entry.1 entry.2).Relocated τ
          ((i.relocate τ).giveOut m' entry.1 entry.2) := by
        have hslot : (i.relocate τ).outputSlots[entry.1]? =
            (i.outputSlots[entry.1]?).map (Option.map τ) := List.getElem?_map
        unfold Instruction.giveOut
        rw [hslot]
        match i.outputSlots[entry.1]? with
        | none => exact h
        | some none => exact h
        | some (some slot) => exact h.write hτ slot entry.2
      exact ih hfirst

/-- The same values are copied from the slots. -/
theorem refresh_eq (i : Instruction) : (i.relocate τ).refresh m' = (i.refresh m).relocate τ := by
  have hcache : ((i.relocate τ).refresh m').inputCache = (i.refresh m).inputCache := by
    refine List.ext_getElem? fun index => ?_
    have hslot : (i.relocate τ).inputSlots[index]? =
        (i.inputSlots[index]?).map (Option.map τ) := List.getElem?_map
    rw [Instruction.getElem?_refresh, Instruction.getElem?_refresh, hslot]
    match i.inputSlots[index]? with
    | none => rfl
    | some none => rfl
    | some (some slot) =>
        show (i.inputCache[index]?).map (fun _ => m'.read (τ slot)) =
          (i.inputCache[index]?).map fun _ => m.read slot
        rw [h.read_eq]
  exact congrArg (fun cache => { i.relocate τ with inputCache := cache }) hcache

/-- An instruction does the same. -/
theorem execute (hτ : Function.Injective τ) (i : Instruction) :
    ((i.relocate τ).execute table m').1 = (i.execute table m).1.relocate τ ∧
      (i.execute table m).2.Relocated τ ((i.relocate τ).execute table m').2 := by
  rw [Instruction.execute_fst, Instruction.execute_fst]
  refine ⟨h.refresh_eq i, ?_⟩
  unfold Instruction.execute
  simp only [h.refresh_eq, Instruction.invocation_relocate, h.source_eq]
  rw [show ((i.refresh m).relocate τ).opIndex = (i.refresh m).opIndex from rfl]
  cases table.get? (i.refresh m).opIndex with
  | none => exact h
  | some registration =>
      have hdrawn : ∀ source, ({ m with source } : Memory).Relocated τ { m' with source } :=
        fun source => ⟨h.exists_iff, rfl, h.read_eq⟩
      exact (hdrawn _).giveAll hτ (i.refresh m) _

/-- Instructions do the same. -/
theorem executeAll (hτ : Function.Injective τ) (instructions : List Instruction) :
    (executeAll table (instructions.map (.relocate τ)) m').1 =
        (executeAll table instructions m).1.map (.relocate τ) ∧
      (executeAll table instructions m).2.Relocated τ
        (executeAll table (instructions.map (.relocate τ)) m').2 := by
  induction instructions generalizing m m' with
  | nil => exact ⟨rfl, h⟩
  | cons i rest ih =>
      obtain ⟨hfirst, hmemory⟩ := h.execute hτ i
      obtain ⟨hrest, hlast⟩ := ih hmemory
      rw [List.map_cons, executeAll_cons, executeAll_cons, hfirst, hrest]
      exact ⟨rfl, hlast⟩

end Relocated

end Memory

end Dataflow
