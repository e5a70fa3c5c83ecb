import Dataflow.Program.Compile
import Dataflow.Proofs.Slot.Invariant

/-!
# Placing a node

While nodes are placed the allocator serves the reads that are still to come: the outputs of
placed nodes that will be read hold slots, and each counts its reads (`Allocator.Serves`).
`Wiring.place_eq_ok` says what placing one node does: its inputs get the slots that their
sources hold before, and its outputs those that they hold afterwards.
-/

namespace Dataflow

/-- The number of occurrences is counted. -/
theorem getD_occurrences {α : Type} [DecidableEq α] [Hashable α] (l : List α) (a : α) :
    (occurrences l).getD a 0 = l.count a := by
  have hfold : ∀ (l : List α) (counts : Std.HashMap α Nat),
      (l.foldl (fun counts a => counts.insert a (counts.getD a 0 + 1)) counts).getD a 0 =
        counts.getD a 0 + l.count a := by
    intro l
    induction l with
    | nil => intro _; rfl
    | cons b rest ih =>
        intro counts
        rw [List.foldl_cons, ih, Std.HashMap.getD_insert, List.count_cons]
        by_cases hb : b = a
        · subst hb
          simp only [beq_self_eq_true, if_true]
          omega
        · rw [if_neg (by simpa using hb), if_neg (by simpa using hb)]
          omega
  unfold occurrences
  rw [hfold, Std.HashMap.getD_empty, Nat.zero_add]

/-- Placing a first item and then the others. -/
theorem Layout.mapM_cons {α β : Type} {f : α → Layout β} {x : α} {xs : List α}
    {a a' last : Allocator OutputSocket} {b : β} {bs : List β} (hfirst : f x a = .ok (b, a'))
    (hrest : xs.mapM f a' = .ok (bs, last)) : (x :: xs).mapM f a = .ok (b :: bs, last) := by
  rw [List.mapM_cons]
  simp only [bind, StateT.bind, hfirst, hrest, Except.bind]
  rfl

/-- Placing some items and then a last one. -/
theorem Layout.mapM_concat {α β : Type} {f : α → Layout β} {x : α} {xs : List α}
    {a a' last : Allocator OutputSocket} {b : β} {bs : List β} (hfront : xs.mapM f a = .ok (bs, a'))
    (hlast : f x a' = .ok (b, last)) : (xs ++ [x]).mapM f a = .ok (bs ++ [b], last) := by
  have hsingle : [x].mapM f a' = .ok ([b], last) := Layout.mapM_cons hlast rfl
  rw [List.mapM_append]
  simp only [bind, StateT.bind, hfront, hsingle, Except.bind]
  rfl

/-- When a first item cannot be placed, that is the fault. -/
theorem Layout.mapM_cons_error {α β : Type} {f : α → Layout β} {x : α} {xs : List α}
    {a : Allocator OutputSocket} {fault : CompileError} (h : f x a = .error fault) :
    (x :: xs).mapM f a = .error fault := by
  rw [List.mapM_cons]
  simp only [bind, StateT.bind, h, Except.bind]

/-- When a first item can be placed, the fault is that of the others. -/
theorem Layout.mapM_cons_of_error {α β : Type} {f : α → Layout β} {x : α} {xs : List α}
    {a a' : Allocator OutputSocket} {b : β} {fault : CompileError} (hfirst : f x a = .ok (b, a'))
    (hrest : xs.mapM f a' = .error fault) : (x :: xs).mapM f a = .error fault := by
  rw [List.mapM_cons]
  simp only [bind, StateT.bind, hfirst, hrest, Except.bind]

namespace Allocator

/-- The slot that an output holds. -/
def slot? (a : Allocator OutputSocket) (s : OutputSocket) : Option Slot :=
  (a.find? s).map (·.slot)

/-- The allocator is consistent, the outputs that are ready and will be read hold slots, and each
output that holds one is ready and counts the reads that are pending. -/
structure Serves (a : Allocator OutputSocket) (reserved : List Nat)
    (ready : OutputSocket → Prop) (pending : List OutputSocket) : Prop where
  consistent : a.Consistent reserved
  sound : ∀ s hold, a.find? s = some hold → ready s ∧ hold.remaining = pending.count s
  complete : ∀ s, ready s → s ∈ pending → ∃ hold, a.find? s = some hold

namespace Serves

variable {a : Allocator OutputSocket} {reserved : List Nat} {ready ready' : OutputSocket → Prop}
  {pending : List OutputSocket} {s : OutputSocket} {slot : Slot}

/-- Outputs that hold slots are ready and will be read. -/
theorem slot?_isSome_iff (h : a.Serves reserved ready pending) :
    (∃ slot, a.slot? s = some slot) ↔ ready s ∧ s ∈ pending := by
  simp only [slot?, Option.map_eq_some_iff]
  constructor
  · intro hholds
    obtain ⟨slot, hold, hfind, -⟩ := hholds
    obtain ⟨hready, hcount⟩ := h.sound s hold hfind
    have hpositive := h.consistent.positive _ (h.consistent.find?_eq_some.1 hfind)
    exact ⟨hready, List.count_pos_iff.1 (by simp only at hpositive; omega)⟩
  · intro hread
    obtain ⟨hready, hmem⟩ := hread
    obtain ⟨hold, hfind⟩ := h.complete s hready hmem
    exact ⟨_, hold, hfind, rfl⟩

/-- Different outputs hold different slots. -/
theorem slot?_inj {s' : OutputSocket} (h : a.Serves reserved ready pending)
    (hs : a.slot? s = some slot) (hs' : a.slot? s' = some slot) : s = s' := by
  obtain ⟨hold, hfind, rfl⟩ := Option.map_eq_some_iff.1 hs
  obtain ⟨hold', hfind', hslot⟩ := Option.map_eq_some_iff.1 hs'
  exact h.consistent.wire_eq hfind hfind' hslot.symm

/-- No output holds a reserved slot. -/
theorem slot?_not_mem (h : a.Serves reserved ready pending) (hs : a.slot? s = some slot) :
    slot.index ∉ reserved := by
  obtain ⟨hold, hfind, rfl⟩ := Option.map_eq_some_iff.1 hs
  exact h.consistent.not_mem_reserved hfind

/-- Only slots that were handed out are held. -/
theorem slot?_lt (h : a.Serves reserved ready pending) (hs : a.slot? s = some slot) :
    slot.index < a.next := by
  obtain ⟨hold, hfind, rfl⟩ := Option.map_eq_some_iff.1 hs
  exact h.consistent.lt_next hfind

/-- What is ready matters only as far as it is read. -/
theorem congr (h : a.Serves reserved ready pending)
    (hready : ∀ s ∈ pending, ready s ↔ ready' s) : a.Serves reserved ready' pending where
  consistent := h.consistent
  sound s hold hfind := by
    obtain ⟨hs, hcount⟩ := h.sound s hold hfind
    exact ⟨(hready s (h.slot?_isSome_iff.1 ⟨_, Option.map_eq_some_iff.2 ⟨_, hfind, rfl⟩⟩).2).1 hs,
      hcount⟩
  complete s hs hmem := h.complete s ((hready s hmem).2 hs) hmem

/-- Serving the read that comes first. -/
theorem use {source : OutputSocket} (h : a.Serves reserved ready (source :: pending))
    (hready : ready source) : ∃ slot a', a.slot? source = some slot ∧
      a.use source = .ok (slot, a') ∧ a'.Serves reserved ready pending ∧ a'.next = a.next ∧
      ∀ s slot, a'.slot? s = some slot → a.slot? s = some slot := by
  obtain ⟨hold, hfind⟩ := h.complete source hready List.mem_cons_self
  obtain ⟨a', huse, hconsistent, hnext, hafter⟩ := use_eq_ok h.consistent hfind
  have hcount := (h.sound source hold hfind).2
  rw [List.count_cons_self] at hcount
  refine ⟨hold.slot, a', by simp [slot?, hfind], huse, ⟨hconsistent, ?_, ?_⟩, hnext, ?_⟩
  · intro s hold' hfind'
    rw [hafter] at hfind'
    by_cases hs : s = source
    · subst hs
      rw [if_pos rfl] at hfind'
      split at hfind'
      · cases hfind'
      · cases hfind'
        exact ⟨hready, by simp only; omega⟩
    · rw [if_neg hs] at hfind'
      obtain ⟨hs', hcount'⟩ := h.sound s hold' hfind'
      rw [List.count_cons_of_ne (Ne.symm hs)] at hcount'
      exact ⟨hs', hcount'⟩
  · intro s hs hmem
    rw [hafter]
    by_cases heq : s = source
    · subst heq
      -- a read is still pending, so this one was not the last
      have hpending := List.count_pos_iff.2 hmem
      rw [if_pos rfl, if_neg (by omega)]
      exact ⟨_, rfl⟩
    · rw [if_neg heq]
      exact h.complete s hs (List.mem_cons_of_mem _ hmem)
  · intro s slot hs
    obtain ⟨hold', hfind', rfl⟩ := Option.map_eq_some_iff.1 hs
    rw [hafter] at hfind'
    by_cases heq : s = source
    · subst heq
      rw [if_pos rfl] at hfind'
      split at hfind' <;> cases hfind'
      simp [slot?, hfind]
    · rw [if_neg heq] at hfind'
      simp [slot?, hfind']

/-- Registering an output that was not ready makes it ready. -/
theorem register {output : OutputSocket} (h : a.Serves reserved ready pending)
    (hnew : ¬ ready output) :
    ∃ a', a.register output (pending.count output) = (a'.slot? output, a') ∧
      a'.Serves reserved (fun s => ready s ∨ s = output) pending ∧
      (a.live ≤ a'.live ∧ a'.peak = max a.peak a'.live) ∧
      ∀ s, s ≠ output → a'.slot? s = a.slot? s := by
  have hfind : a.find? output = none := Option.eq_none_iff_forall_ne_some.2 fun hold hfind =>
    hnew (h.sound output hold hfind).1
  refine ⟨(a.register output (pending.count output)).2, ?_, ?_, ?_, ?_⟩
  -- an output that no pending read names gets no slot
  all_goals rcases Nat.eq_zero_or_pos (pending.count output) with hread | hread
  · rw [hread, register_zero hfind]
    simp [slot?, hfind]
  · have hafter := find?_register output hfind hread
    rw [if_pos rfl] at hafter
    refine Prod.ext ?_ rfl
    rw [slot?, hafter, register_eq hfind hread]
    rfl
  · rw [hread, register_zero hfind]
    refine h.congr fun s hs => ⟨.inl, ?_⟩
    rintro (hs' | rfl)
    · exact hs'
    · exact absurd hs (List.count_eq_zero.1 hread)
  · have hafter := fun s => find?_register s hfind hread
    refine ⟨h.consistent.register hfind hread, ?_, ?_⟩
    · intro s hold hs
      rw [hafter] at hs
      by_cases heq : s = output
      · subst heq
        rw [if_pos rfl] at hs
        cases hs
        exact ⟨.inr rfl, rfl⟩
      · rw [if_neg heq] at hs
        obtain ⟨hready, hcount⟩ := h.sound s hold hs
        exact ⟨.inl hready, hcount⟩
    · intro s hready hmem
      rw [hafter]
      by_cases heq : s = output
      · exact ⟨_, if_pos heq⟩
      · rw [if_neg heq]
        exact h.complete s (hready.resolve_right heq) hmem
  · rw [hread, register_zero hfind]
    exact ⟨Nat.le_refl _, (Nat.max_eq_left h.consistent.live_le_peak).symm⟩
  · rw [peak_register hfind hread, live_register hfind hread]
    exact ⟨Nat.le_succ _, rfl⟩
  · intro s _
    rw [hread, register_zero hfind]
  · intro s hs
    rw [slot?, find?_register s hfind hread, if_neg hs, slot?]

end Serves

end Allocator

namespace Wiring

variable {w : Wiring} {n : Node} {k : Key} {a : Allocator OutputSocket} {reserved : List Nat}
  {ready : OutputSocket → Prop} {pending : List OutputSocket}

/-- The slot that feeds an input, given the slots that outputs hold. -/
def inputSlot? (w : Wiring) (held : OutputSocket → Option Slot) (n : Node) (s : InputSocket) :
    Option Slot :=
  match w.feeds[s]? with
  | some source => held source
  | none =>
      match n.role with
      | .parameterRead id => if s.index = 0 then w.parameterSlot? id else none
      | _ => none

/-- A node bound to the slots that outputs hold before and after it is placed. -/
def instruction (w : Wiring) (n : Node) (k : Key) (opIndex : Nat)
    (before after : OutputSocket → Option Slot) : Instruction where
  op := n.op
  opIndex := opIndex
  role := n.role
  source := k
  literals := n.literals
  inputSlots := (List.range n.inputs.length).map fun index => w.inputSlot? before n ⟨k, index⟩
  outputSlots := (List.range n.outputs).map fun index => after ⟨k, index⟩
  inputCache := n.defaults

/-- An input without a wire takes no slot of an output. -/
theorem bindInput_of_unwired {s : InputSocket} (hfeed : w.feeds[s]? = none)
    (held : OutputSocket → Option Slot) :
    w.bindInput n s a = .ok (w.inputSlot? held n s, a) := by
  simp only [bindInput, inputSlot?, hfeed]
  cases n.role <;> rfl

/-- Binding the inputs of a node serves its reads. Each input gets the slot that its source
holds beforehand. -/
theorem bindInputs_eq_ok (indices : List Nat)
    (h : a.Serves reserved ready ((indices.filterMap fun index => w.feeds[(⟨k, index⟩ :
      InputSocket)]?) ++ pending))
    (hready : ∀ index ∈ indices, ∀ source, w.feeds[(⟨k, index⟩ : InputSocket)]? = some source →
      ready source) :
    ∃ a', (indices.mapM fun index => w.bindInput n ⟨k, index⟩) a =
        .ok (indices.map fun index => w.inputSlot? a.slot? n ⟨k, index⟩, a') ∧
      a'.Serves reserved ready pending ∧ a'.next = a.next ∧
      ∀ s slot, a'.slot? s = some slot → a.slot? s = some slot := by
  induction indices generalizing a with
  | nil => exact ⟨a, rfl, h, rfl, fun _ _ hs => hs⟩
  | cons index rest ih =>
      have hrest := fun i hi => hready i (List.mem_cons_of_mem _ hi)
      cases hfeed : w.feeds[(⟨k, index⟩ : InputSocket)]? with
      | none =>
          simp only [List.filterMap_cons, hfeed] at h
          obtain ⟨a', hbind, hserves, hnext, hkept⟩ := ih h hrest
          refine ⟨a', ?_, hserves, hnext, hkept⟩
          exact Layout.mapM_cons (bindInput_of_unwired hfeed a.slot?) hbind
      | some source =>
          simp only [List.filterMap_cons, hfeed, List.cons_append] at h
          obtain ⟨slot, a₁, hslot, huse, hserves₁, hnext₁, hkept₁⟩ :=
            h.use (hready index List.mem_cons_self source hfeed)
          obtain ⟨a', hbind, hserves, hnext, hkept⟩ := ih hserves₁ hrest
          refine ⟨a', ?_, hserves, hnext.trans hnext₁,
            fun s slot hs => hkept₁ s slot (hkept s slot hs)⟩
          have hfirst : w.bindInput n ⟨k, index⟩ a =
              .ok (w.inputSlot? a.slot? n ⟨k, index⟩, a₁) := by
            simp only [bindInput, inputSlot?, hfeed, huse, hslot]
          -- what the rest reads still holds the slot that it held at the start
          have hsame : ∀ i ∈ rest, w.inputSlot? a₁.slot? n ⟨k, i⟩ =
              w.inputSlot? a.slot? n ⟨k, i⟩ := by
            intro i hi
            unfold inputSlot?
            split
            · rename_i source' hfeed'
              have hmem : source' ∈ (rest.filterMap fun index => w.feeds[(⟨k, index⟩ :
                  InputSocket)]?) ++ pending :=
                List.mem_append_left _ (List.mem_filterMap.2 ⟨i, hi, hfeed'⟩)
              obtain ⟨slot', hslot'⟩ :=
                hserves₁.slot?_isSome_iff.2 ⟨hrest i hi source' hfeed', hmem⟩
              rw [hslot', hkept₁ _ _ hslot']
            · rfl
          rw [List.map_congr_left hsame] at hbind
          exact Layout.mapM_cons hfirst hbind

/-- Binding the outputs of a node makes them ready. Each output gets the slot that it holds
afterwards. -/
theorem bindOutputs_eq_ok (indices : List Nat) (h : a.Serves reserved ready pending)
    (hnodup : indices.Nodup) (hnew : ∀ index ∈ indices, ¬ ready ⟨k, index⟩)
    (hreaders : ∀ index, w.readers.getD ⟨k, index⟩ 0 = pending.count ⟨k, index⟩) :
    ∃ a', (indices.mapM fun index => w.bindOutput ⟨k, index⟩) a =
        .ok (indices.map fun index => a'.slot? ⟨k, index⟩, a') ∧
      a'.Serves reserved (fun s => ready s ∨ s.node = k ∧ s.index ∈ indices) pending ∧
      (a.live ≤ a'.live ∧ a'.peak = max a.peak a'.live) ∧
      ∀ s, ¬ (s.node = k ∧ s.index ∈ indices) → a'.slot? s = a.slot? s := by
  induction indices generalizing a ready with
  | nil =>
      exact ⟨a, rfl, h.congr fun s _ => by simp,
        ⟨Nat.le_refl _, (Nat.max_eq_left h.consistent.live_le_peak).symm⟩, fun _ _ => rfl⟩
  | cons index rest ih =>
      obtain ⟨hindex, hnodup⟩ := List.nodup_cons.1 hnodup
      obtain ⟨a₁, hregister, hserves₁, ⟨hlive₁, hpeak₁⟩, hkept₁⟩ :=
        h.register (hnew index List.mem_cons_self)
      have hnew₁ : ∀ i ∈ rest, ¬ (ready ⟨k, i⟩ ∨ (⟨k, i⟩ : OutputSocket) = ⟨k, index⟩) := by
        rintro i hi (hready | heq)
        · exact hnew i (List.mem_cons_of_mem _ hi) hready
        · cases heq
          exact hindex hi
      obtain ⟨a', hbind, hserves, ⟨hlive, hpeak⟩, hkept⟩ := ih hserves₁ hnodup hnew₁
      refine ⟨a', ?_, hserves.congr fun s _ => ?_, ⟨Nat.le_trans hlive₁ hlive, by omega⟩, ?_⟩
      · have hfirst : w.bindOutput ⟨k, index⟩ a = .ok (a'.slot? ⟨k, index⟩, a₁) := by
          rw [bindOutput, hreaders, hregister, hkept ⟨k, index⟩ fun hmem => hindex hmem.2]
        exact Layout.mapM_cons hfirst hbind
      · obtain ⟨node, i⟩ := s
        simp only [OutputSocket.mk.injEq, List.mem_cons]
        tauto
      · intro s hs
        rw [hkept s fun hmem => hs ⟨hmem.1, List.mem_cons_of_mem _ hmem.2⟩]
        refine hkept₁ s fun heq => hs ?_
        subst heq
        exact ⟨rfl, List.mem_cons_self⟩

variable {g : Graph} {table : Table} {opIndex : Nat} {placed : List Key}

/-- The sources of a node are the feeds of its inputs. -/
theorem sources_of_node {feeds : Feeds} (hnode : g.node? k = some n) : g.sources feeds k =
    (List.range n.inputs.length).filterMap fun index => feeds[(⟨k, index⟩ : InputSocket)]? := by
  rw [Graph.sources, hnode]
  rfl

/-- Placing a node whose sources are placed serves its reads and makes its outputs ready. -/
theorem place_eq_ok (hnode : g.node? k = some n) (hknown : table.resolve n.op = some opIndex)
    (hserves : a.Serves reserved (·.node ∈ placed) (g.sources w.feeds k ++ pending))
    (hsources : ∀ s ∈ g.sources w.feeds k, s.node ∈ placed) (hnew : k ∉ placed)
    (hreaders : ∀ index, w.readers.getD ⟨k, index⟩ 0 = pending.count ⟨k, index⟩)
    (hrange : ∀ s ∈ pending, s.node = k → s.index < n.outputs) :
    ∃ a', w.place g table k a = .ok (w.instruction n k opIndex a.slot? a'.slot?, a') ∧
      a'.Serves reserved (·.node ∈ placed ++ [k]) pending ∧ a'.peak = max a.peak a'.live ∧
      ∀ s slot, s.node ≠ k → a'.slot? s = some slot → a.slot? s = some slot := by
  rw [sources_of_node hnode] at hserves hsources
  obtain ⟨a₁, hinputs, hserves₁, hnext₁, hkept₁⟩ := bindInputs_eq_ok (n := n) _ hserves
    fun index hindex source hfeed => hsources source (List.mem_filterMap.2 ⟨index, hindex, hfeed⟩)
  obtain ⟨a', houtputs, hserves', ⟨-, hpeak'⟩, hkept'⟩ := bindOutputs_eq_ok (w := w) (k := k)
    (List.range n.outputs) hserves₁ List.nodup_range (fun _ _ => hnew) hreaders
  have hpeak₁ : a₁.peak = a.peak := by
    rw [hserves₁.consistent.peak_eq, hserves.consistent.peak_eq, hnext₁]
  refine ⟨a', ?_, hserves'.congr fun s hs => ?_, hpeak₁ ▸ hpeak', ?_⟩
  · simp only [place, hnode, hknown, bind, StateT.bind, hinputs, houtputs, Except.bind]
    rfl
  · rw [List.mem_append, List.mem_singleton, List.mem_range]
    constructor
    · rintro (hplaced | ⟨hk, -⟩)
      · exact .inl hplaced
      · exact .inr hk
    · rintro (hplaced | hk)
      · exact .inl hplaced
      · exact .inr ⟨hk, hrange s hs hk⟩
  · intro s slot hs hslot
    rw [hkept' s fun hmem => hs hmem.1] at hslot
    exact hkept₁ s slot hslot

/-- A node whose operation is not in the table is not placed. -/
theorem place_eq_error (hnode : g.node? k = some n) (hunknown : table.resolve n.op = none) :
    w.place g table k a = .error (.unknownOperation k n.op) := by
  simp only [place, hnode, hunknown]
  rfl

end Wiring

end Dataflow
