import Dataflow.Proofs.Program.Liveness
import Dataflow.Proofs.Runner.Requests

/-!
# Runs that nothing can break

A checked run does what a run does and looks at each step whether it can be relied on: a slot that
is read or written must exist, an operation must be found, and a program that is loaded must pass
the check of its bindings. A strict run also demands that values are given out through declared
outputs only. In every state that can be reached a checked run is the run itself, and so is a
strict one over the bundled operations (`Runner.reachable_safe`).
-/

namespace Dataflow

/-- What breaks in a run that relies on what is not there: a slot does not exist, an operation is
not in its place in the table, a value is given out through an output that the node does not
declare, or a program has a binding that no run could rely on. -/
inductive Breach where
  | missingSlot (slot : Slot)
  | missingOperation (op : OpId)
  | undeclaredOutput (op : OpId) (index : Nat)
  | invalidProgram (error : ProgramError)
deriving DecidableEq, Repr

/-! ## Checked runs -/

namespace Memory

/-- The value in a slot, which must exist. -/
def readChecked (m : Memory) (s : Slot) : Except Breach Value :=
  match m.slots[s.index]? with
  | some v => .ok v
  | none => .error (.missingSlot s)

/-- The memory with a value put into a slot, which must exist. -/
def writeChecked (m : Memory) (s : Slot) (v : Value) : Except Breach Memory :=
  if s.index < m.slots.size then .ok (m.write s v) else .error (.missingSlot s)

/-- The memory with each parameter put into its slot. -/
def putAllChecked (m : Memory) (parameters : List Parameter) : Except Breach Memory :=
  parameters.foldlM (fun m q => m.writeChecked q.slot q.value) m

end Memory

namespace Instruction

/-- The instruction with its wired inputs copied from their slots. -/
def refreshChecked (i : Instruction) (m : Memory) : Except Breach Instruction := do
  let inputCache ← (i.inputSlots.zip i.inputCache).mapM fun (slot, cached) =>
    match slot with
    | some slot => m.readChecked slot
    | none => .ok cached
  return { i with inputCache }

/-- The memory with a value given out through an output, which a strict run wants declared. -/
def giveOutChecked (strict : Bool) (i : Instruction) (m : Memory) (index : Nat) (v : Value) :
    Except Breach Memory :=
  match i.outputSlots[index]? with
  | some (some slot) => m.writeChecked slot v
  | some none => .ok m
  | none => if strict then .error (.undeclaredOutput i.op index) else .ok m

/-- The memory with all values given out that an operation gave out. -/
def giveAllChecked (strict : Bool) (i : Instruction) (m : Memory) (writes : Writes) :
    Except Breach Memory :=
  writes.foldlM (fun m (index, v) => i.giveOutChecked strict m index v) m

/-- Runs the instruction once. -/
def executeChecked (strict : Bool) (i : Instruction) (table : Table) (m : Memory) :
    Except Breach (Instruction × Memory) := do
  let i ← i.refreshChecked m
  match table.get? i.opIndex with
  | none => throw (.missingOperation i.op)
  | some registration =>
      let (writes, source) := registration.operation i.invocation m.source
      let m ← i.giveAllChecked strict { m with source } writes
      return (i, m)

end Instruction

/-- Runs instructions one after another. -/
def executeAllChecked (strict : Bool) (table : Table) :
    List Instruction → Memory → Except Breach (List Instruction × Memory)
  | [], m => .ok ([], m)
  | i :: rest, m => do
      let (i, m) ← i.executeChecked strict table m
      let (rest, m) ← executeAllChecked strict table rest m
      return (i :: rest, m)

namespace Runner

/-- Evaluates the graph, and tells whether there was one. -/
def evaluateChecked (strict : Bool) (r : Runner) : Except Breach (Bool × Runner) :=
  if r.instructions.isEmpty then .ok (false, r)
  else do
    let memory ← r.memory.putAllChecked r.parameters
    let (instructions, memory) ← executeAllChecked strict r.table r.instructions memory
    return (true,
      { r with
        instructions, memory
        outputs := r.published instructions
        evaluations := r.evaluations + 1 })

/-- Lets time pass, and evaluates the graph if that is due. -/
def tickChecked (strict : Bool) (r : Runner) (delta : Float32) : Except Breach (Bool × Runner) :=
  let (due, accumulated) := r.config.advance r.accumulated delta
  let r := { r with accumulated }
  if due then r.evaluateChecked strict else .ok (false, r)

/-- Does what is asked. A program that is loaded must pass the check of its bindings. -/
def serveChecked (strict : Bool) (r : Runner) : Request → Except Breach (Bool × Runner)
  | .act (.tick delta) => r.tickChecked strict delta
  | .act .evaluate => r.evaluateChecked strict
  | .act action => .ok (r.perform action)
  | .load p =>
      match p.fault? with
      | some error => .error (.invalidProgram error)
      | none => .ok (r.serve (.load p))

end Runner

/-! ## Checks that succeed -/

/-- If every item can be computed, so can all of them. -/
theorem mapM_eq_ok {α β ε : Type} {f : α → Except ε β} {g : α → β} {items : List α}
    (h : ∀ a ∈ items, f a = .ok (g a)) : items.mapM f = .ok (items.map g) := by
  induction items with
  | nil => rfl
  | cons a rest ih =>
      rw [List.mapM_cons, h a List.mem_cons_self, ih fun b hb => h b (List.mem_cons_of_mem _ hb)]
      rfl

/-- If an invariant lets every step succeed and every step keeps it, all steps succeed. -/
theorem foldlM_eq_ok {α ε σ : Type} {f : σ → α → Except ε σ} {g : σ → α → σ} {items : List α}
    (invariant : σ → Prop)
    (hstep : ∀ s, invariant s → ∀ a ∈ items, f s a = .ok (g s a) ∧ invariant (g s a)) {s : σ}
    (h : invariant s) : items.foldlM f s = .ok (items.foldl g s) := by
  induction items generalizing s with
  | nil => rfl
  | cons a rest ih =>
      obtain ⟨hfirst, hkept⟩ := hstep s h a List.mem_cons_self
      rw [List.foldlM_cons, hfirst]
      exact ih (fun s hs b hb => hstep s hs b (List.mem_cons_of_mem _ hb)) hkept

namespace Memory

variable {m : Memory} {s : Slot} {v : Value}

/-- A slot that exists can be read. -/
theorem readChecked_eq (h : s.index < m.slots.size) : m.readChecked s = .ok (m.read s) := by
  simp [readChecked, read, h]

/-- A slot that exists can be written. -/
theorem writeChecked_eq (h : s.index < m.slots.size) : m.writeChecked s v = .ok (m.write s v) :=
  if_pos h

/-- Parameters with slots that exist can be put into them. -/
theorem putAllChecked_eq {parameters : List Parameter}
    (h : ∀ q ∈ parameters, q.slot.index < m.slots.size) :
    m.putAllChecked parameters = .ok (m.putAll parameters) := by
  refine foldlM_eq_ok (fun m' => m'.slots.size = m.slots.size) (fun m' hsize q hq => ?_) rfl
  exact ⟨writeChecked_eq (hsize ▸ h q hq), size_write.trans hsize⟩

end Memory

namespace Instruction

variable {i : Instruction} {m : Memory} {strict : Bool}

/-- Inputs with slots that exist can be copied. -/
theorem refreshChecked_eq (h : ∀ slot, some slot ∈ i.inputSlots → slot.index < m.slots.size) :
    i.refreshChecked m = .ok (i.refresh m) := by
  have hcopy : ∀ entry ∈ i.inputSlots.zip i.inputCache,
      (match entry.1 with | some slot => m.readChecked slot | none => .ok entry.2) =
        Except.ok (entry.1.elim entry.2 m.read) := by
    rintro ⟨slot, cached⟩ hentry
    cases slot with
    | none => rfl
    | some slot => exact Memory.readChecked_eq (h slot (List.of_mem_zip hentry).1)
  rw [refreshChecked, mapM_eq_ok hcopy, refresh, ← List.map_uncurry_zip_eq_zipWith]
  rfl

/-- A value can be given out through a slot that exists. -/
theorem giveOutChecked_eq {index : Nat} {v : Value}
    (h : ∀ slot, some slot ∈ i.outputSlots → slot.index < m.slots.size)
    (hdeclared : strict → index < i.outputSlots.length) :
    i.giveOutChecked strict m index v = .ok (i.giveOut m index v) := by
  unfold giveOutChecked giveOut
  cases hslot : i.outputSlots[index]? with
  | none =>
      rw [List.getElem?_eq_none_iff] at hslot
      have hlenient : ¬ strict = true := fun hstrict => Nat.not_lt.2 hslot (hdeclared hstrict)
      simp only [if_neg hlenient]
  | some output =>
      cases output with
      | none => rfl
      | some slot => exact Memory.writeChecked_eq (h slot (List.mem_of_getElem? hslot))

/-- All values can be given out. -/
theorem giveAllChecked_eq {writes : Writes}
    (h : ∀ slot, some slot ∈ i.outputSlots → slot.index < m.slots.size)
    (hdeclared : strict → ∀ write ∈ writes, write.1 < i.outputSlots.length) :
    i.giveAllChecked strict m writes = .ok (i.giveAll m writes) := by
  refine foldlM_eq_ok (fun m' => m'.slots.size = m.slots.size) (fun m' hsize write hwrite => ?_) rfl
  exact ⟨giveOutChecked_eq (hsize ▸ h) fun hstrict => hdeclared hstrict write hwrite,
    size_giveOut.trans hsize⟩

/-- The operation of the instruction gives out through declared outputs only. -/
def GivesDeclared (i : Instruction) (table : Table) : Prop :=
  ∀ registration, table.get? i.opIndex = some registration → ∀ call source,
    ∀ write ∈ (registration.operation call source).1, write.1 < i.outputSlots.length

/-- An instruction of which the slots and the operation exist can run. -/
theorem executeChecked_eq {table : Table}
    (hinputs : ∀ slot, some slot ∈ i.inputSlots → slot.index < m.slots.size)
    (houtputs : ∀ slot, some slot ∈ i.outputSlots → slot.index < m.slots.size)
    (hoperation : ∃ registration, table.get? i.opIndex = some registration)
    (hdeclared : strict → i.GivesDeclared table) :
    i.executeChecked strict table m = .ok (i.execute table m) := by
  obtain ⟨registration, hregistration⟩ := hoperation
  have hfound : table.get? (i.refresh m).opIndex = some registration := hregistration
  cases hran : registration.operation (i.refresh m).invocation m.source with
  | mk writes source =>
      have hwrites : strict → ∀ write ∈ writes, write.1 < i.outputSlots.length :=
        fun hstrict write hwrite => hdeclared hstrict registration hregistration
          (i.refresh m).invocation m.source write (hran ▸ hwrite)
      have hgive : (i.refresh m).giveAllChecked strict { m with source } writes =
          .ok ((i.refresh m).giveAll { m with source } writes) := giveAllChecked_eq houtputs hwrites
      simp only [executeChecked, refreshChecked_eq hinputs, bind, Except.bind, hfound, hran, hgive,
        execute]
      rfl

end Instruction

namespace Binding

variable {table : Table} {slotCount : Nat} {instructions : List Instruction}
  {parameters : List Parameter} {output : Option Nat} {strict : Bool}

/-- The instructions that follow the first one are bound as soundly, on their own. -/
theorem tail {i : Instruction} (h : Binding table slotCount (i :: instructions) parameters output) :
    Binding table slotCount instructions parameters none where
  cache j hj := h.cache j (List.mem_cons_of_mem _ hj)
  inputs j hj := h.inputs j (List.mem_cons_of_mem _ hj)
  outputs j hj := h.outputs j (List.mem_cons_of_mem _ hj)
  parameters := h.parameters
  operation j hj := h.operation j (List.mem_cons_of_mem _ hj)
  output _ hnone := nomatch hnone
  gives j hj := h.gives j (List.mem_cons_of_mem _ hj)

/-- Instructions that are bound soundly can run. -/
theorem executeAllChecked_eq (h : Binding table slotCount instructions parameters output)
    (hdeclared : strict → ∀ i ∈ instructions, i.GivesDeclared table) {m : Memory}
    (hsize : m.slots.size = slotCount) :
    executeAllChecked strict table instructions m =
      .ok (Dataflow.executeAll table instructions m) := by
  induction instructions generalizing m output with
  | nil => rfl
  | cons i rest ih =>
      have hi := List.mem_cons_self (a := i) (l := rest)
      obtain ⟨registration, hregistration, -⟩ := h.operation i hi
      have hfirst : i.executeChecked strict table m = .ok (i.execute table m) :=
        Instruction.executeChecked_eq (hsize ▸ h.inputs i hi) (hsize ▸ h.outputs i hi)
          ⟨registration, hregistration⟩ fun hstrict => hdeclared hstrict i hi
      have hsize' : (i.execute table m).2.slots.size = slotCount :=
        Instruction.size_execute.trans hsize
      have hrest := ih h.tail (fun hstrict j hj => hdeclared hstrict j (List.mem_cons_of_mem _ hj))
        hsize'
      simp only [executeAllChecked, hfirst, hrest, bind, Except.bind]
      rfl

/-- Over the bundled operations instructions that are bound soundly give out through declared
outputs only. -/
theorem givesDeclared (h : Binding Catalog.table slotCount instructions parameters output)
    {i : Instruction} (hi : i ∈ instructions) : i.GivesDeclared Catalog.table := by
  intro registration hregistration call source write hwrite
  obtain ⟨found, hfound, hop⟩ := h.operation i hi
  rw [hregistration, Option.some.injEq] at hfound
  subst hfound
  obtain ⟨hindex, hne⟩ := Catalog.index_eq_zero (Catalog.mem_registrations hregistration) hwrite
  rw [hindex]
  exact h.gives i hi (hop ▸ hne)

end Binding

namespace Runner

variable {r : Runner} {strict : Bool}

/-- A sound runner can evaluate. -/
theorem Sound.evaluateChecked_eq (h : r.Sound) (hstrict : strict → r.table = Catalog.table) :
    r.evaluateChecked strict = .ok r.evaluate := by
  by_cases hne : r.instructions = []
  · simp [evaluateChecked, Runner.evaluate, hne]
  · have hexecute : executeAllChecked strict r.table r.instructions
        (r.memory.putAll r.parameters) = .ok (executeAll r.table r.instructions
          (r.memory.putAll r.parameters)) := by
      refine Binding.executeAllChecked_eq h (fun hstrict' i hi => ?_) Memory.size_putAll
      have htable := hstrict hstrict'
      rw [Sound, htable] at h
      exact htable ▸ h.givesDeclared hi
    rw [evaluate_of_ne_nil hne, evaluateChecked, if_neg (by simpa using hne)]
    simp only [Memory.putAllChecked_eq h.parameters, hexecute, bind, Except.bind]
    rfl

/-- A sound runner can serve every request. -/
theorem Sound.serveChecked_eq (h : r.Sound) (hstrict : strict → r.table = Catalog.table)
    {request : Request} (hrequest : request.Admissible) :
    r.serveChecked strict request = .ok (r.serve request) := by
  cases request with
  | load p => simp only [serveChecked, hrequest.sound.fault?_eq_none]
  | act action =>
      cases action with
      | setParameter id v => rfl
      | setParameterByName name v => rfl
      | evaluate => exact h.evaluateChecked_eq hstrict
      | tick delta =>
          have hwait : ({ r with
              accumulated := (r.config.advance r.accumulated delta).2 } : Runner).Sound := h
          show (if (r.config.advance r.accumulated delta).1 then _ else _) =
            Except.ok (r.perform (.tick delta))
          rw [perform_tick]
          split
          · exact hwait.evaluateChecked_eq hstrict
          · rfl

/-- No run breaks. Every program that is compiled passes the check of its bindings. In every state
that a runner can reach its instructions, parameters and output fit its table and its slots, and it
serves every further request without reading or writing a slot that does not exist and without
missing an operation. Over the bundled operations no value is given out through an output that is
not declared. -/
theorem reachable_safe :
    (∀ {g : Graph} {table : Table} {p : Program}, table.Built → g.compile table = .ok p →
      p.isValid) ∧
    ∀ {r : Runner}, r.Reachable → r.Sound ∧
      ∀ request : Request, request.Admissible →
        r.serveChecked false request = .ok (r.serve request) ∧
        (r.table = Catalog.table → r.serveChecked true request = .ok (r.serve request)) := by
  refine ⟨fun hbuilt hp => ?_, fun hreachable => ⟨hreachable.sound, fun request hrequest => ?_⟩⟩
  · rw [Program.isValid, (Graph.compile_sound hbuilt hp).fault?_eq_none]
    rfl
  · refine ⟨hreachable.sound.serveChecked_eq ?_ hrequest, fun htable =>
      hreachable.sound.serveChecked_eq (fun _ => htable) hrequest⟩
    exact nofun

/-- A runner that started without operations, got a program over the bundled ones, and had a
parameter set. -/
def overgrownRunner : Runner :=
  (((start (.empty .empty) .default (.ofSeed 1)).serve (.load Graph.overgrownProgram)).2.serve
    (.act (.setParameter ⟨7⟩ (.float (.plain 3))))).2

/-- A runner that exchanged its table runs without a breach. -/
theorem overgrownRunner_safe : Graph.overgrownProgram.isValid ∧ overgrownRunner.Sound ∧
    overgrownRunner.serveChecked true (.act .evaluate) =
      .ok (overgrownRunner.serve (.act .evaluate)) := by
  obtain ⟨hvalid, hsafe⟩ := reachable_safe
  have hobtained : Graph.overgrownProgram.Obtained :=
    .compiled Catalog.built Graph.compile_overgrown
  have hempty : Table.empty.Built := ⟨[], rfl⟩
  have hloaded : ((start (.empty .empty) .default (.ofSeed 1)).serve
      (.load Graph.overgrownProgram)).2.Reachable :=
    (Reachable.start (.empty hempty) _ _).serve hobtained
  have hreachable : overgrownRunner.Reachable := hloaded.serve trivial
  obtain ⟨hsound, hserve⟩ := hsafe hreachable
  exact ⟨hvalid Catalog.built Graph.compile_overgrown, hsound,
    (hserve (.act .evaluate) trivial).2 rfl⟩

end Runner

end Dataflow
