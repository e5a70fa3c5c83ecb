import Dataflow.Proofs.Graph.Meaning
import Dataflow.Proofs.Operation.Catalog
import Dataflow.Proofs.Program.Slots

/-!
# Which programs forget

Slots are never cleared, so an instruction may read what an earlier evaluation left in a slot. A
program forgets (`Program.Forgets`) if what its nodes see does not depend on that. Over the bundled
operations, and without random numbers, a program forgets exactly when every slot that an
instruction reads belongs to a parameter, was filled earlier in the same evaluation, or is never
filled (`forgets_of_readsFresh`, `readsFresh_of_forgets`). It does so whenever every wire to a live
node leaves the first output of its producer (`readsFresh_of_first`), since no bundled operation
gives anything out through another.
-/

namespace Dataflow

namespace Memory

variable {m : Memory} {t : Slot} {v : Value}

/-- The memory with a value put into a slot, if there is one. -/
def fill (m : Memory) (slot : Option Slot) (v : Value) : Memory :=
  slot.elim m (m.write · v)

/-- Filling a slot changes no other. -/
theorem read_fill_other {slot : Option Slot} (h : slot ≠ some t) :
    (m.fill slot v).read t = m.read t := by
  cases slot with
  | none => rfl
  | some s => exact read_write_other fun heq => h (congrArg some heq)

end Memory

namespace Instruction

variable {i : Instruction} {slot : Slot}

/-- The slot that an instruction fills whenever it runs. Bundled operations give a value out through
their first output; the graph's output gives out none. -/
def filled? (i : Instruction) : Option Slot :=
  if i.op = .output then none else i.outputSlots[0]?.join

/-- The instruction runs a bundled operation that draws no number. -/
structure Steady (i : Instruction) : Prop where
  known : Catalog.table.resolve i.op = some i.opIndex
  op_ne : i.op ≠ Catalog.randomFloat

/-- An instruction whose operation gives one value out fills its slot with it. -/
theorem execute_eq_fill (known : Catalog.table.resolve i.op = some i.opIndex)
    (hop : i.op ≠ .output) {f : Invocation → Value}
    (hrun : Catalog.table.run i.op = fun call => pure [(0, f call)]) (m : Memory) :
    i.execute Catalog.table m = (i.refresh m, m.fill i.filled? (f (i.refresh m).invocation)) := by
  rw [Instruction.execute_eq known, hrun, filled?, if_neg hop]
  show (i.refresh m, i.giveOut m 0 (f (i.refresh m).invocation)) = _
  unfold giveOut
  cases i.outputSlots[0]? with
  | none => rfl
  | some output => cases output <;> rfl

/-- A steady instruction fills its slot with a function of what it sees, which is a number unless it
reads a parameter, and changes nothing else. -/
theorem Steady.execute_eq (h : i.Steady) : ∃ f : Invocation → Value,
    (∀ m, i.execute Catalog.table m =
      (i.refresh m, m.fill i.filled? (f (i.refresh m).invocation))) ∧
    (i.op ≠ .parameterRead → ∀ call, ∃ x, f call = .float x) := by
  have hknown : (Catalog.table.resolve i.op).isSome := by rw [h.known]; rfl
  cases Catalog.kind_run hknown with
  | silent hop hrun =>
      refine ⟨fun _ => .float (.plain 0), fun m => ?_, fun _ _ => ⟨_, rfl⟩⟩
      rw [Instruction.execute_eq h.known, hrun, filled?, if_pos hop]
      rfl
  | random hop => exact absurd hop h.op_ne
  | passThrough hop hrun =>
      have hne : i.op ≠ .output := by rw [hop]; decide
      exact ⟨fun call => call.input 0, execute_eq_fill h.known hne hrun, fun h => absurd hop h⟩
  | numeric hop hrun =>
      obtain ⟨f, hrun⟩ := hrun
      exact ⟨fun call => .float (f call), execute_eq_fill h.known hop.1 hrun, fun _ _ => ⟨_, rfl⟩⟩

/-- A slot that an instruction fills is that of an output. -/
theorem mem_outputSlots_of_filled? (h : i.filled? = some slot) : some slot ∈ i.outputSlots := by
  unfold filled? at h
  split at h
  · cases h
  · exact List.mem_of_getElem? (Option.join_eq_some_iff.1 h)

end Instruction

/-- Two memories that agree on what steady instructions read from outside lead them to see the
same. -/
theorem executeAll_congr {instructions : List Instruction} (outside : Slot → Prop)
    {m m' : Memory} (hsteady : ∀ i ∈ instructions, i.Steady)
    (hreads : ∀ before i after, instructions = before ++ i :: after →
      ∀ slot, some slot ∈ i.inputSlots → outside slot ∨ ∃ j ∈ before, j.filled? = some slot)
    (hsize : m.slots.size = m'.slots.size)
    (hagree : ∀ slot, outside slot → m.read slot = m'.read slot) :
    (executeAll Catalog.table instructions m).1 = (executeAll Catalog.table instructions m').1 := by
  induction instructions generalizing outside m m' with
  | nil => rfl
  | cons i rest ih =>
      obtain ⟨f, hexecute, -⟩ := (hsteady i List.mem_cons_self).execute_eq
      have hrefresh : i.refresh m = i.refresh m' := Instruction.refresh_congr fun slot hslot => by
        rcases hreads [] i rest rfl slot hslot with houtside | ⟨j, hj, -⟩
        · exact hagree slot houtside
        · cases hj
      have hsize' : (i.execute Catalog.table m).2.slots.size =
          (i.execute Catalog.table m').2.slots.size := by
        rw [Instruction.size_execute, Instruction.size_execute, hsize]
      -- what the instruction fills counts as outside for those that follow
      have hrest := ih (fun slot => outside slot ∨ i.filled? = some slot)
        (fun j hj => hsteady j (List.mem_cons_of_mem _ hj)) ?_ hsize' ?_
      · rw [executeAll_cons, executeAll_cons, hrest, Instruction.execute_fst,
          Instruction.execute_fst, hrefresh]
      · rintro before j after rfl slot hslot
        rcases hreads (i :: before) j after rfl slot hslot with houtside | ⟨k, hk, hfilled⟩
        · exact .inl (.inl houtside)
        · rcases List.mem_cons.1 hk with rfl | hk
          · exact .inl (.inr hfilled)
          · exact .inr ⟨k, hk, hfilled⟩
      · intro slot hslot
        rw [hexecute, hexecute, hrefresh]
        by_cases hfilled : i.filled? = some slot
        · rw [hfilled]
          exact Memory.read_write_congr hsize
        · rw [Memory.read_fill_other hfilled, Memory.read_fill_other hfilled]
          exact hagree slot (hslot.resolve_right hfilled)

/-- A slot that no instruction fills holds what it held. -/
theorem read_executeAll_of_not_filled {instructions : List Instruction} {m : Memory} {slot : Slot}
    (hsteady : ∀ i ∈ instructions, i.Steady) (h : ∀ i ∈ instructions, i.filled? ≠ some slot) :
    (executeAll Catalog.table instructions m).2.read slot = m.read slot := by
  induction instructions generalizing m with
  | nil => rfl
  | cons i rest ih =>
      obtain ⟨f, hexecute, -⟩ := (hsteady i List.mem_cons_self).execute_eq
      rw [executeAll_cons, ih (fun j hj => hsteady j (List.mem_cons_of_mem _ hj))
        fun j hj => h j (List.mem_cons_of_mem _ hj), hexecute]
      exact Memory.read_fill_other (h i List.mem_cons_self)

/-- A slot that an instruction fills holds a number afterwards, if no instruction reads a
parameter. -/
theorem read_executeAll_of_filled {instructions : List Instruction} {m : Memory} {slot : Slot}
    (hsteady : ∀ i ∈ instructions, i.Steady) (hnumeric : ∀ i ∈ instructions, i.op ≠ .parameterRead)
    (hfilled : ∃ i ∈ instructions, i.filled? = some slot) (hindex : slot.index < m.slots.size) :
    ∃ x, (executeAll Catalog.table instructions m).2.read slot = .float x := by
  induction instructions generalizing m with
  | nil =>
      obtain ⟨i, hi, -⟩ := hfilled
      cases hi
  | cons i rest ih =>
      have hrest : ∀ j ∈ rest, j.Steady := fun j hj => hsteady j (List.mem_cons_of_mem _ hj)
      by_cases hlater : ∃ j ∈ rest, j.filled? = some slot
      · rw [executeAll_cons]
        exact ih hrest (fun j hj => hnumeric j (List.mem_cons_of_mem _ hj)) hlater
          (by rwa [Instruction.size_execute])
      · -- the first instruction is the last one that fills the slot
        obtain ⟨f, hexecute, hnumber⟩ := (hsteady i List.mem_cons_self).execute_eq
        obtain ⟨j, hj, hfirst⟩ := hfilled
        rcases List.mem_cons.1 hj with rfl | hj
        · obtain ⟨x, hx⟩ := hnumber (hnumeric j List.mem_cons_self) (j.refresh m).invocation
          refine ⟨x, ?_⟩
          have hkept : ∀ k ∈ rest, k.filled? ≠ some slot := fun k hk hk' => hlater ⟨k, hk, hk'⟩
          rw [executeAll_cons, read_executeAll_of_not_filled hrest hkept, hexecute, hfirst, hx]
          exact Memory.read_write_same hindex
        · exact absurd ⟨j, hj, hfirst⟩ hlater

namespace Program

/-- The slot can hold something that an earlier evaluation left: it belongs to no parameter, and
an instruction fills it. -/
def Reused (p : Program) (slot : Slot) : Prop :=
  slot ∉ p.parameters.map (·.slot) ∧ ∃ i ∈ p.instructions, i.filled? = some slot

/-- Every slot that an instruction reads was filled before, unless nothing can be left in it. -/
def ReadsFresh (p : Program) : Prop :=
  ∀ before i after, p.instructions = before ++ i :: after → ∀ slot, some slot ∈ i.inputSlots →
    p.Reused slot → ∃ j ∈ before, j.filled? = some slot

/-- What the instructions see does not depend on what was left in the slots. -/
def Forgets (p : Program) : Prop :=
  ∀ m m' : Memory, m.slots.size = p.slotCount → m'.slots.size = p.slotCount →
    (∀ slot, ¬ p.Reused slot → m.read slot = m'.read slot) →
    (executeAll p.table p.instructions m).1.map (·.inputCache) =
      (executeAll p.table p.instructions m').1.map (·.inputCache)

end Program

/-- An item of which the image is unique splits a list in one way. -/
theorem split_unique {α β : Type} {f : α → β} {l before before' after after' : List α} {x x' : α}
    (hnodup : (l.map f).Nodup) (h : l = before ++ x :: after) (h' : l = before' ++ x' :: after')
    (hf : f x = f x') : before = before' ∧ x = x' := by
  have hfirst : (l.map f)[before.length]? = some (f x) := by rw [h]; simp
  have hsecond : (l.map f)[before'.length]? = some (f x') := by rw [h']; simp
  have hlength : before.length = before'.length :=
    (List.getElem?_inj (List.getElem?_eq_some_iff.1 hfirst).1 hnodup).1
      (hfirst.trans ((congrArg some hf).trans hsecond.symm))
  obtain ⟨hbefore, hrest⟩ := List.append_inj (h.symm.trans h') hlength
  exact ⟨hbefore, (List.cons.inj hrest).1⟩

namespace Graph.Compilation

variable {g : Graph} {feeds : Feeds} {root : Key} {order : List Key}
  {last : Allocator OutputSocket} {p : Program}
  (h : g.Compilation Catalog.table feeds root order last p)
include h

/-- Without a live random number all instructions are steady. -/
theorem steady (hrandom : ∀ k n, g.Live k → g.node? k = some n → n.op ≠ Catalog.randomFloat)
    {i : Instruction} (hi : i ∈ p.instructions) : i.Steady := by
  obtain ⟨hlive, n, hn⟩ := h.exists_node hi
  exact ⟨h.resolve_op hi, h.op_eq hi hn ▸ hrandom _ n hlive hn⟩

/-- A program that reads only fresh slots forgets. -/
theorem forgets_of_readsFresh (hsteady : ∀ i ∈ p.instructions, i.Steady) (hfresh : p.ReadsFresh) :
    p.Forgets := by
  intro m m' hsize hsize' hagree
  rw [h.table_eq]
  refine congrArg (List.map _) (executeAll_congr (fun slot => ¬ p.Reused slot) hsteady ?_
    (hsize.trans hsize'.symm) hagree)
  intro before i after hsplit slot hslot
  by_cases hreused : p.Reused slot
  · exact .inr (hfresh before i after hsplit slot hslot hreused)
  · exact .inl hreused

/-- What an instruction reads before it is filled is seen. -/
theorem read_eq_of_seen (hsteady : ∀ i ∈ p.instructions, i.Steady) {before after : List Instruction}
    {i : Instruction} {slot : Slot} (hsplit : p.instructions = before ++ i :: after)
    (hslot : some slot ∈ i.inputSlots) (hunfilled : ¬ ∃ j ∈ before, j.filled? = some slot)
    {m m' : Memory} (hseen : (executeAll p.table p.instructions m).1.map (·.inputCache) =
      (executeAll p.table p.instructions m').1.map (·.inputCache)) :
    m.read slot = m'.read slot := by
  -- the slot is untouched until the instruction copies it into its cache
  have hkept : ∀ m, (executeAll Catalog.table before m).2.read slot = m.read slot := by
    intro m
    refine read_executeAll_of_not_filled (fun j hj => hsteady j ?_) fun j hj hj' =>
      hunfilled ⟨j, hj, hj'⟩
    rw [hsplit]
    exact List.mem_append_left _ hj
  rw [h.table_eq, hsplit, executeAll_append, executeAll_append, List.map_append,
    List.map_append] at hseen
  have hrest := (List.append_inj hseen (by simp [length_executeAll])).2
  simp only [executeAll_cons, List.map_cons, List.cons.injEq, Instruction.execute_fst] at hrest
  obtain ⟨input, hinput⟩ := List.mem_iff_getElem?.1 hslot
  have hi : i ∈ p.instructions := by rw [hsplit]; simp
  have hcached : (i.inputCache[input]?).isSome := by
    rw [isSome_getElem?, ← h.length_inputSlots hi]
    exact (List.getElem?_eq_some_iff.1 hinput).1
  obtain ⟨cached, hcached⟩ := Option.isSome_iff_exists.1 hcached
  have hvalue := congrArg (·[input]?) hrest.1
  simp only [Instruction.getElem?_refresh, hinput, hcached, Option.bind_some, Option.map_some,
    Option.elim_some, hkept, Option.some.injEq] at hvalue
  exact hvalue

/-- A slot in which something can be left exists. -/
theorem reused_lt {slot : Slot} (hreused : p.Reused slot) : slot.index < p.slotCount := by
  obtain ⟨-, filler, hfiller, hfilled⟩ := hreused
  exact h.slot_lt_slotCount hfiller (Instruction.mem_outputSlots_of_filled? hfilled)

/-- A program that forgets reads only fresh slots. -/
theorem readsFresh_of_forgets (hsteady : ∀ i ∈ p.instructions, i.Steady) (hforgets : p.Forgets) :
    p.ReadsFresh := by
  intro before i after hsplit slot hslot hreused
  by_contra hunfilled
  -- two memories that differ in the slot alone
  let m := Memory.fresh p.slotCount (.ofSeed 0)
  have hsize : m.slots.size = p.slotCount := Array.size_replicate
  have hagree : ∀ other, ¬ p.Reused other →
      m.read other = (m.write slot (.bool true)).read other := by
    intro other hother
    have hne : slot ≠ other := fun heq => hother (heq ▸ hreused)
    exact (Memory.read_write_other hne).symm
  have hseen := hforgets m (m.write slot (.bool true)) hsize (by rw [Memory.size_write, hsize])
    hagree
  have hread := h.read_eq_of_seen hsteady hsplit hslot hunfilled hseen
  rw [Memory.read_write_same (hsize ▸ h.reused_lt hreused), Memory.read_fresh] at hread
  cases hread

/-- A producer that a live node reads is not the output. -/
theorem op_ne_output {before between after : List Instruction} {producer consumer : Instruction}
    (hsplit : p.instructions = before ++ producer :: between ++ consumer :: after) :
    producer.op ≠ .output := by
  intro hop
  have hi : producer ∈ p.instructions := by rw [hsplit]; simp
  obtain ⟨-, n, hn⟩ := h.exists_node hi
  have hroot : producer.source = root :=
    (soleOutput?_eq_ok.1 h.root_eq).2 _ ⟨n, hn, (h.op_eq hi hn).symm.trans hop⟩
  -- the root comes last and nowhere else
  have hlast := h.isOrder.getLast
  have hnodup := h.isOrder.nodup
  rw [← h.map_source, hsplit, List.map_append] at hlast hnodup
  rw [List.getLast?_append_of_ne_nil _ (by simp)] at hlast
  have hmem : root ∈ (before ++ producer :: between).map (·.source) :=
    hroot ▸ List.mem_map_of_mem (List.mem_append_right _ List.mem_cons_self)
  exact (List.nodup_append.1 hnodup).2.2 root hmem root (List.mem_of_getLast? hlast) rfl

/-- If every wire to a live node leaves the first output of its producer, the program reads only
fresh slots. -/
theorem readsFresh_of_first
    (hfirst : ∀ w ∈ g.wires, g.Live w.target.node → w.source.index = 0) : p.ReadsFresh := by
  intro before i after hsplit slot hslot hreused
  have hi : i ∈ p.instructions := by rw [hsplit]; simp
  obtain ⟨index, hinput⟩ := List.mem_iff_getElem?.1 hslot
  -- the slot is that of a wire, whose producer fills it, since it is not that of a parameter
  rcases h.inputSlot_cases hi hinput with
    ⟨w, hw, htarget, before', producer, between, after', hsplit', -, hwritten, -⟩ |
    ⟨id, q, -, -, hq, rfl⟩
  · obtain ⟨rfl, -⟩ := split_unique h.carries.nodup hsplit hsplit' rfl
    have htarget' : w.target.node = i.source := congrArg InputSocket.node htarget
    rw [hfirst w hw (htarget' ▸ (h.exists_node hi).1)] at hwritten
    refine ⟨producer, List.mem_append_right _ List.mem_cons_self, ?_⟩
    rw [Instruction.filled?, if_neg (h.op_ne_output hsplit'), hwritten]
    rfl
  · exact absurd (List.mem_map_of_mem (List.mem_of_find?_eq_some hq)) hreused.1

end Graph.Compilation

end Dataflow
