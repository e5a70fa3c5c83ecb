import Mathlib.Data.List.Forall2
import Dataflow.Program.Execution

/-!
# What a run reads and writes

An instruction changes the slots of its outputs and no others, and leaves in each the value
that its operation gave out last (`Instruction.read_giveAll`). What it cached at an earlier run
never matters: an instruction that is bound like another one runs like it
(`executeAll_of_alike`).
-/

namespace Dataflow

namespace Memory

variable {m m' : Memory} {s t : Slot} {v : Value}

/-- A slot that exists holds what was put into it. -/
theorem read_write_same (h : s.index < m.slots.size) : (m.write s v).read s = v := by
  simp [read, write, Array.getD_eq_getD_getElem?, h]

/-- Other slots hold what they held. -/
theorem read_write_other (h : s ≠ t) : (m.write s v).read t = m.read t := by
  have hindex : s.index ≠ t.index := fun heq => h (by cases s; cases t; cases heq; rfl)
  simp [read, write, Array.getD_eq_getD_getElem?, Array.getElem?_setIfInBounds_ne hindex]

/-- Putting a value into a slot of two memories makes them agree on it. -/
theorem read_write_congr (h : m.slots.size = m'.slots.size) :
    (m.write s v).read s = (m'.write s v).read s := by
  by_cases hs : s.index < m.slots.size
  · rw [read_write_same hs, read_write_same (h ▸ hs)]
  · have hs' : ¬ s.index < m'.slots.size := h ▸ hs
    simp [read, write, Array.getD_eq_getD_getElem?, hs, hs']

/-- Putting a value into a slot makes no slots. -/
@[simp] theorem size_write : (m.write s v).slots.size = m.slots.size := by
  simp [write]

/-- Nothing is in a slot at the start. -/
theorem read_fresh (slotCount : Nat) (source : Random.Source) :
    (fresh slotCount source).read s = .empty := by
  simp only [read, fresh, Array.getD_eq_getD_getElem?, Array.getElem?_replicate]
  split <;> rfl

end Memory

namespace Instruction

variable {i j : Instruction} {m : Memory} {t : Slot} {v : Value}

/-- Giving out a value makes no slots. -/
@[simp] theorem size_giveOut {index : Nat} :
    (i.giveOut m index v).slots.size = m.slots.size := by
  unfold giveOut
  split
  · exact Memory.size_write
  · rfl

/-- The memory with all values given out that an operation gave out. -/
def giveAll (i : Instruction) (m : Memory) (writes : Writes) : Memory :=
  writes.foldl (fun m (index, v) => i.giveOut m index v) m

/-- Giving out values makes no slots. -/
@[simp] theorem size_giveAll {writes : Writes} :
    (i.giveAll m writes).slots.size = m.slots.size := by
  induction writes generalizing m with
  | nil => rfl
  | cons entry rest ih => exact ih.trans size_giveOut

end Instruction

/-- What the operation of an identifier does; one that is not in the table does nothing. -/
def Table.run (t : Table) (op : OpId) : Operation :=
  match t.lookup op with
  | some registration => registration.operation
  | none => .silent

namespace Instruction

variable {i j : Instruction} {m m' : Memory} {t : Slot} {table : Table}

/-- An instruction that was bound to the place of its operation runs that operation on its wired
inputs and gives out what it gives out. -/
theorem execute_eq (h : table.resolve i.op = some i.opIndex) : i.execute table m =
    (i.refresh m, i.giveAll
      { m with source := (table.run i.op (i.refresh m).invocation m.source).2 }
      (table.run i.op (i.refresh m).invocation m.source).1) := by
  have hlookup : table.lookup i.op = table.get? i.opIndex := by
    rw [Table.lookup, h]
    rfl
  simp only [Table.run, hlookup, execute, refresh]
  cases table.get? i.opIndex with
  | none => rfl
  | some registration => rfl

/-- The instruction is bound like the other one, caches as many values, and has the same values for
inputs without a slot. -/
structure Alike (i j : Instruction) : Prop where
  binding : i = { j with inputCache := i.inputCache }
  length_eq : i.inputCache.length = j.inputCache.length
  unbound : ∀ index : Nat, j.inputSlots[index]? = some none →
    i.inputCache[index]? = j.inputCache[index]?

/-- Every instruction is bound like itself. -/
theorem Alike.refl (i : Instruction) : i.Alike i :=
  ⟨rfl, rfl, fun _ _ => rfl⟩

/-- The values for inputs after they were copied from their slots. -/
theorem getElem?_refresh (index : Nat) : (i.refresh m).inputCache[index]? =
    (i.inputSlots[index]?).bind fun slot =>
      (i.inputCache[index]?).map fun cached => slot.elim cached m.read := by
  simp only [refresh, List.getElem?_zipWith]
  cases i.inputSlots[index]? <;> cases i.inputCache[index]? <;> rfl

/-- An instruction sees of the slots only those that it reads. -/
theorem refresh_congr (h : ∀ slot, some slot ∈ i.inputSlots → m.read slot = m'.read slot) :
    i.refresh m = i.refresh m' := by
  have hcache : (i.refresh m).inputCache = (i.refresh m').inputCache := by
    refine List.ext_getElem? fun index => ?_
    rw [getElem?_refresh, getElem?_refresh]
    cases hslot : i.inputSlots[index]? with
    | none => rfl
    | some input =>
        cases input with
        | none => rfl
        | some slot =>
            show (i.inputCache[index]?).map (fun _ => m.read slot) =
              (i.inputCache[index]?).map fun _ => m'.read slot
            rw [h slot (List.mem_of_getElem? hslot)]
  exact congrArg (fun cache => { i with inputCache := cache }) hcache

/-- Instructions that are bound alike see the same inputs. -/
theorem Alike.refresh_eq (h : i.Alike j) : i.refresh m = j.refresh m := by
  have hslots : i.inputSlots = j.inputSlots := by rw [h.binding]
  have hcache : (i.refresh m).inputCache = (j.refresh m).inputCache := by
    refine List.ext_getElem? fun index => ?_
    rw [getElem?_refresh, getElem?_refresh, hslots]
    cases hslot : j.inputSlots[index]? with
    | none => rfl
    | some slot =>
        cases slot with
        | none => rw [h.unbound index hslot]
        | some slot =>
            -- the cached value is not looked at, only whether there is one
            have hlength : i.inputCache[index]?.isSome = j.inputCache[index]?.isSome := by
              rw [Bool.eq_iff_iff, isSome_getElem?, isSome_getElem?, h.length_eq]
            revert hlength
            cases i.inputCache[index]? <;> cases j.inputCache[index]? <;> simp
  calc i.refresh m
    _ = { i with inputCache := (i.refresh m).inputCache } := rfl
    _ = { j with inputCache := (i.refresh m).inputCache } :=
      congrArg (fun k : Instruction => { k with inputCache := (i.refresh m).inputCache }) h.binding
    _ = { j with inputCache := (j.refresh m).inputCache } := by rw [hcache]

/-- An instruction whose inputs were copied is bound as before. -/
theorem alike_refresh (h : i.inputSlots.length = i.inputCache.length) : (i.refresh m).Alike i := by
  refine ⟨rfl, ?_, fun index hslot => ?_⟩
  · simp [refresh, h]
  · rw [getElem?_refresh, hslot]
    simp

/-- An instruction that runs has its wired inputs copied from their slots. -/
theorem execute_fst : (i.execute table m).1 = i.refresh m := by
  unfold execute
  simp only
  split <;> rfl

/-- An instruction that runs makes no slots. -/
@[simp] theorem size_execute : (i.execute table m).2.slots.size = m.slots.size := by
  unfold execute
  simp only
  split
  · rfl
  · exact size_giveAll

/-- Instructions that are bound alike run alike. -/
theorem Alike.execute_eq (h : i.Alike j) : i.execute table m = j.execute table m := by
  unfold execute
  rw [h.refresh_eq]

end Instruction

/-- A first instruction runs, and then the others. -/
theorem executeAll_cons (table : Table) (i : Instruction) (rest : List Instruction) (m : Memory) :
    executeAll table (i :: rest) m =
      ((i.execute table m).1 :: (executeAll table rest (i.execute table m).2).1,
        (executeAll table rest (i.execute table m).2).2) := rfl

/-- Instructions that run make no slots. -/
theorem size_executeAll {table : Table} {instructions : List Instruction} {m : Memory} :
    (executeAll table instructions m).2.slots.size = m.slots.size := by
  induction instructions generalizing m with
  | nil => rfl
  | cons i rest ih => exact ih.trans Instruction.size_execute

/-- Instructions run one part after the other. -/
theorem executeAll_append (table : Table) (before after : List Instruction) (m : Memory) :
    executeAll table (before ++ after) m =
      ((executeAll table before m).1 ++
        (executeAll table after (executeAll table before m).2).1,
        (executeAll table after (executeAll table before m).2).2) := by
  induction before generalizing m with
  | nil => rfl
  | cons i rest ih => simp only [List.cons_append, executeAll, ih]

/-- Every instruction that runs is listed. -/
theorem length_executeAll (table : Table) (instructions : List Instruction) (m : Memory) :
    (executeAll table instructions m).1.length = instructions.length := by
  induction instructions generalizing m with
  | nil => rfl
  | cons i rest ih => exact congrArg (· + 1) (ih _)

/-- Instructions that run go on to read the slots that they read. -/
theorem map_inputSlots_executeAll (table : Table) (instructions : List Instruction) (m : Memory) :
    (executeAll table instructions m).1.map (·.inputSlots) = instructions.map (·.inputSlots) := by
  induction instructions generalizing m with
  | nil => rfl
  | cons i rest ih =>
      rw [executeAll_cons, List.map_cons, List.map_cons, ih, Instruction.execute_fst]
      rfl

/-- Instructions that are bound alike run alike, and are bound alike afterwards. -/
theorem executeAll_of_alike {table : Table} {instructions bound : List Instruction}
    (h : List.Forall₂ Instruction.Alike instructions bound)
    (hlength : ∀ i ∈ bound, i.inputSlots.length = i.inputCache.length) (m : Memory) :
    executeAll table instructions m = executeAll table bound m ∧
      List.Forall₂ Instruction.Alike (executeAll table bound m).1 bound := by
  induction h generalizing m with
  | nil => exact ⟨rfl, .nil⟩
  | @cons i j rest rest' hfirst _ ih =>
      obtain ⟨hrest, halike⟩ := ih (fun i hi => hlength i (List.mem_cons_of_mem _ hi))
        (j.execute table m).2
      refine ⟨?_, ?_⟩
      · simp only [executeAll, hfirst.execute_eq, hrest]
      · refine .cons ?_ halike
        show (j.execute table m).1.Alike j
        rw [Instruction.execute_fst]
        exact Instruction.alike_refresh (hlength j List.mem_cons_self)

end Dataflow
