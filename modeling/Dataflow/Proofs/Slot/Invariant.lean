import Mathlib.Data.List.Nodup
import Mathlib.Data.List.Perm.Basic
import Dataflow.Slot.Allocator

/-!
# The invariant of slot allocators

An allocator is consistent with a list of reserved slots when the reserved slots, those that
wires hold and the free ones are the slots ever handed out, each of them once. Reserving a
slot, registering a wire and using one keep an allocator consistent; `find?_register` and
`find?_use` say what the wires hold afterwards.
-/

namespace Dataflow

/-- Putting a number in its place adds it and changes nothing else. -/
theorem insertAscending_perm (n : Nat) (l : List Nat) : (insertAscending n l).Perm (n :: l) := by
  induction l with
  | nil => exact .refl _
  | cons m rest ih =>
      unfold insertAscending
      split
      · exact .refl _
      · exact (ih.cons m).trans (.swap n m rest)

/-- An ascending list with a new number in its place is ascending. -/
theorem insertAscending_pairwise {n : Nat} {l : List Nat} (h : l.Pairwise (· < ·))
    (hnew : n ∉ l) : (insertAscending n l).Pairwise (· < ·) := by
  induction l with
  | nil => exact List.pairwise_singleton _ _
  | cons m rest ih =>
      obtain ⟨hm, hrest⟩ := List.pairwise_cons.1 h
      obtain ⟨hne, hnew⟩ := not_or.1 (List.mem_cons.not.1 hnew)
      unfold insertAscending
      split
      · rename_i hle
        refine List.pairwise_cons.2 ⟨fun k hk => ?_, h⟩
        rcases List.mem_cons.1 hk with rfl | hk
        · omega
        · have hlater := hm k hk
          omega
      · rename_i hlt
        refine List.pairwise_cons.2 ⟨fun k hk => ?_, ih hrest hnew⟩
        rcases List.mem_cons.1 ((insertAscending_perm n rest).mem_iff.1 hk) with rfl | hk
        · omega
        · exact hm k hk

namespace Allocator

variable {κ : Type} {a : Allocator κ} {reserved : List Nat}

/-- The slots that wires hold. -/
def heldSlots (a : Allocator κ) : List Nat := a.held.map (·.2.slot.index)

/-- The reserved slots, the held ones and the free ones are the slots that were ever handed out,
each of them once, and the counts are those of the slots in use. No wire is registered twice, a
registered wire has an input that is yet to use it, and the free slots are in ascending order. A
slot is new only when all others are in use, so that the peak counts them all. -/
structure Consistent (a : Allocator κ) (reserved : List Nat) : Prop where
  keys : (a.held.map (·.1)).Nodup
  positive : ∀ entry ∈ a.held, 0 < entry.2.remaining
  parts : (reserved ++ (a.heldSlots ++ a.free)).Perm (List.range a.next)
  ascending : a.free.Pairwise (· < ·)
  live_eq : a.live = reserved.length + a.held.length
  peak_eq : a.peak = a.next

/-- An entry whose key comes once can be taken to the front of a list. -/
theorem perm_cons_filter_ne [DecidableEq κ] {wire : κ} {hold : Hold} {held : List (κ × Hold)}
    (hkeys : (held.map (·.1)).Nodup) (hmem : (wire, hold) ∈ held) :
    held.Perm ((wire, hold) :: held.filter (·.1 ≠ wire)) := by
  induction held with
  | nil => cases hmem
  | cons entry rest ih =>
      rw [List.map_cons, List.nodup_cons] at hkeys
      rcases List.mem_cons.1 hmem with rfl | hmem
      · have hrest : rest.filter (·.1 ≠ wire) = rest := by
          refine List.filter_eq_self.2 fun e he => ?_
          have hne : e.1 ≠ wire := fun heq =>
            hkeys.1 (heq ▸ List.mem_map_of_mem (f := (·.1)) he)
          simpa using hne
        rw [List.filter_cons_of_neg (by simp), hrest]
      · have hne : entry.1 ≠ wire := fun heq =>
          hkeys.1 (heq ▸ List.mem_map_of_mem (f := (·.1)) hmem)
        rw [List.filter_cons_of_pos (by simpa using hne)]
        exact ((ih hkeys.2 hmem).cons entry).trans (.swap _ _ _)

namespace Consistent

/-- The numbers of slots add up. -/
theorem length_eq (h : a.Consistent reserved) :
    reserved.length + (a.held.length + a.free.length) = a.next := by
  simpa [heldSlots] using h.parts.length_eq

/-- No more slots are in use than at the peak. -/
theorem live_le_peak (h : a.Consistent reserved) : a.live ≤ a.peak := by
  have hlength := h.length_eq
  rw [h.live_eq, h.peak_eq]
  omega

/-- No slot is counted twice. -/
theorem nodup (h : a.Consistent reserved) : (reserved ++ (a.heldSlots ++ a.free)).Nodup :=
  h.parts.nodup_iff.2 List.nodup_range

/-- Reserving hands out a slot that was free or new. -/
theorem reserve (h : a.Consistent reserved) :
    a.reserve.2.Consistent (a.reserve.1.index :: reserved) := by
  have hlength := h.length_eq
  have hparts := h.parts
  have hascending := h.ascending
  unfold Allocator.reserve
  cases hfree : a.free with
  | nil =>
      rw [hfree] at hlength hparts
      refine ⟨h.keys, h.positive, ?_, .nil, ?_, ?_⟩
      · show (a.next :: reserved ++ (a.heldSlots ++ [])).Perm (List.range (a.next + 1))
        rw [List.range_succ]
        exact (hparts.cons a.next).trans (List.perm_append_singleton _ _).symm
      · show a.live + 1 = (reserved.length + 1) + a.held.length
        rw [h.live_eq]
        omega
      · -- nothing is free, so all slots were in use before
        show max a.peak (a.live + 1) = a.next + 1
        rw [h.peak_eq, h.live_eq]
        simp only [List.length_nil] at hlength
        omega
  | cons n rest =>
      rw [hfree] at hlength hparts hascending
      refine ⟨h.keys, h.positive, ?_, (List.pairwise_cons.1 hascending).2, ?_, ?_⟩
      · refine List.Perm.trans ?_ hparts
        simp only [← List.append_assoc]
        exact List.perm_middle.symm
      · show a.live + 1 = (reserved.length + 1) + a.held.length
        rw [h.live_eq]
        omega
      · -- one slot at least was free, so no more are in use than before the peak
        show max a.peak (a.live + 1) = a.next
        rw [h.peak_eq, h.live_eq]
        simp only [List.length_cons] at hlength
        omega

/-- A reserved slot that is taken back is free. -/
theorem release {slot : Slot} (h : a.Consistent (slot.index :: reserved)) :
    (a.release slot).Consistent reserved := by
  have hnew : slot.index ∉ a.free := by
    intro hmem
    have hnodup := h.nodup
    rw [List.cons_append, List.nodup_cons] at hnodup
    exact hnodup.1 (List.mem_append_right _ (List.mem_append_right _ hmem))
  refine ⟨h.keys, h.positive, ?_, insertAscending_pairwise h.ascending hnew, ?_, h.peak_eq⟩
  · have hmiddle : (reserved ++ a.heldSlots ++ slot.index :: a.free).Perm
        (slot.index :: (reserved ++ a.heldSlots ++ a.free)) := List.perm_middle
    rw [List.append_assoc, List.append_assoc] at hmiddle
    calc reserved ++ (a.heldSlots ++ insertAscending slot.index a.free)
      _ |>.Perm (reserved ++ (a.heldSlots ++ slot.index :: a.free)) :=
        ((insertAscending_perm slot.index a.free).append_left _).append_left _
      _ |>.Perm (slot.index :: (reserved ++ (a.heldSlots ++ a.free))) := hmiddle
      _ |>.Perm (List.range a.next) := h.parts
  · show a.live - 1 = reserved.length + a.held.length
    rw [h.live_eq, List.length_cons]
    omega

/-- A new wire may hold a reserved slot. -/
theorem hold (wire : κ) (hold : Hold) (h : a.Consistent (hold.slot.index :: reserved))
    (hnew : wire ∉ a.held.map (·.1)) (hpositive : 0 < hold.remaining) :
    { a with held := (wire, hold) :: a.held }.Consistent reserved where
  keys := List.nodup_cons.2 ⟨hnew, h.keys⟩
  positive entry hentry := by
    rcases List.mem_cons.1 hentry with rfl | hentry
    · exact hpositive
    · exact h.positive entry hentry
  parts := List.perm_middle.trans h.parts
  ascending := h.ascending
  live_eq := by
    show a.live = reserved.length + (a.held.length + 1)
    rw [h.live_eq, List.length_cons]
    omega
  peak_eq := h.peak_eq

section

variable [DecidableEq κ] {wire other : κ} {hold : Hold}

/-- A wire holds what stands beside it in the list. -/
theorem find?_eq_some (h : a.Consistent reserved) :
    a.find? wire = some hold ↔ (wire, hold) ∈ a.held := by
  have hkeys := h.keys
  unfold find?
  generalize a.held = held at *
  induction held with
  | nil => simp
  | cons entry rest ih =>
      obtain ⟨key, value⟩ := entry
      rw [List.map_cons, List.nodup_cons] at hkeys
      rw [List.lookup_cons, List.mem_cons]
      by_cases hkey : wire = key
      · subst hkey
        have hrest : (wire, hold) ∉ rest := fun hmem =>
          hkeys.1 (List.mem_map_of_mem (f := (·.1)) hmem)
        simp [hrest, eq_comm]
      · rw [show (wire == key) = false by simpa using hkey]
        simp [ih hkeys.2, hkey]

/-- The slot that a wire holds is a held one. -/
theorem mem_heldSlots (h : a.Consistent reserved) (hwire : a.find? wire = some hold) :
    hold.slot.index ∈ a.heldSlots :=
  List.mem_map.2 ⟨(wire, hold), h.find?_eq_some.1 hwire, rfl⟩

/-- Different wires hold different slots. -/
theorem wire_eq {hold' : Hold} (h : a.Consistent reserved) (hwire : a.find? wire = some hold)
    (hother : a.find? other = some hold') (hslot : hold.slot = hold'.slot) : wire = other := by
  have hheld : (a.held.map (·.2.slot.index)).Nodup :=
    (List.nodup_append.1 (List.nodup_append.1 h.nodup).2.1).1
  have heq := List.inj_on_of_nodup_map hheld (h.find?_eq_some.1 hwire)
    (h.find?_eq_some.1 hother) (congrArg Slot.index hslot)
  exact congrArg Prod.fst heq

/-- No wire holds a reserved slot. -/
theorem not_mem_reserved (h : a.Consistent reserved) (hwire : a.find? wire = some hold) :
    hold.slot.index ∉ reserved := by
  intro hmem
  have hheld := List.mem_append_left a.free (h.mem_heldSlots hwire)
  exact (List.nodup_append.1 h.nodup).2.2 _ hmem _ hheld rfl

/-- Only slots that were handed out are held. -/
theorem lt_next (h : a.Consistent reserved) (hwire : a.find? wire = some hold) :
    hold.slot.index < a.next := by
  have hheld := List.mem_append_left a.free (h.mem_heldSlots hwire)
  exact List.mem_range.1 (h.parts.mem_iff.1 (List.mem_append_right _ hheld))

/-- A wire that gives its slot up leaves it reserved. -/
theorem drop (h : a.Consistent reserved) (hwire : a.find? wire = some hold) :
    { a with held := a.held.filter (·.1 ≠ wire) }.Consistent
      (hold.slot.index :: reserved) := by
  have hperm := perm_cons_filter_ne h.keys (h.find?_eq_some.1 hwire)
  have hslots := hperm.map (·.2.slot.index)
  refine ⟨h.keys.sublist (List.filter_sublist.map _), fun entry hentry =>
    h.positive entry (List.mem_of_mem_filter hentry), ?_, h.ascending, ?_, h.peak_eq⟩
  · refine List.Perm.trans ?_ h.parts
    have hparts := (hslots.symm.append_right a.free).append_left reserved
    exact (List.perm_middle.symm.trans hparts)
  · show a.live = (reserved.length + 1) + (a.held.filter (·.1 ≠ wire)).length
    rw [h.live_eq, hperm.length_eq, List.length_cons]
    omega

end

end Consistent

section

variable [DecidableEq κ] {wire other : κ}

/-- Without a wire the others hold what they held. -/
theorem lookup_filter_ne (wire other : κ) (held : List (κ × Hold)) :
    (held.filter (·.1 ≠ wire)).lookup other = if other = wire then none else held.lookup other := by
  induction held with
  | nil => simp
  | cons entry rest ih =>
      obtain ⟨key, hold⟩ := entry
      by_cases hkey : key = wire
      · rw [List.filter_cons_of_neg (by simpa using hkey), ih, List.lookup_cons]
        grind
      · rw [List.filter_cons_of_pos (by simpa using hkey), List.lookup_cons, ih, List.lookup_cons]
        grind

/-- Reserving changes nothing that wires hold. -/
@[simp] theorem find?_reserve : a.reserve.2.find? wire = a.find? wire := by
  unfold reserve
  split <;> rfl

/-- A wire that nothing will use gets no slot. -/
theorem register_zero (hnew : a.find? wire = none) : a.register wire 0 = (none, a) := by
  unfold register
  rw [hnew]
  rfl

/-- A wire that was not registered and will be used holds a slot from then on. -/
theorem register_eq {n : Nat} (hnew : a.find? wire = none) (hn : 0 < n) :
    a.register wire n = (some a.reserve.1,
      { a.reserve.2 with held := (wire, ⟨a.reserve.1, n⟩) :: a.reserve.2.held }) := by
  unfold register
  rw [hnew]
  simp only [Nat.pos_iff_ne_zero.1 hn, if_false]

/-- Registering a new wire keeps an allocator consistent. -/
theorem Consistent.register {n : Nat} (h : a.Consistent reserved)
    (hnew : a.find? wire = none) (hn : 0 < n) :
    (a.register wire n).2.Consistent reserved := by
  rw [register_eq hnew hn]
  -- reserving gives the wire no slot, so it is still not registered
  refine h.reserve.hold wire _ (fun hmem => ?_) hn
  obtain ⟨⟨key, hold⟩, hentry, rfl⟩ := List.mem_map.1 hmem
  have hfind := h.reserve.find?_eq_some.2 hentry
  rw [find?_reserve, hnew] at hfind
  cases hfind

/-- Registering a new wire puts one more slot to use. -/
theorem live_register {n : Nat} (hnew : a.find? wire = none) (hn : 0 < n) :
    (a.register wire n).2.live = a.live + 1 := by
  rw [register_eq hnew hn]
  show a.reserve.2.live = a.live + 1
  unfold reserve
  split <;> rfl

/-- Registering a new wire raises the peak to the slots in use, if they are more. -/
theorem peak_register {n : Nat} (hnew : a.find? wire = none) (hn : 0 < n) :
    (a.register wire n).2.peak = max a.peak (a.live + 1) := by
  rw [register_eq hnew hn]
  show a.reserve.2.peak = max a.peak (a.live + 1)
  unfold reserve
  split <;> rfl

/-- Registering a new wire changes what this wire holds and nothing else. -/
theorem find?_register (other : κ) {n : Nat} (hnew : a.find? wire = none) (hn : 0 < n) :
    (a.register wire n).2.find? other =
      if other = wire then some ⟨a.reserve.1, n⟩ else a.find? other := by
  rw [register_eq hnew hn]
  have hreserve : a.reserve.2.held.lookup other = a.held.lookup other := find?_reserve
  unfold find?
  rw [List.lookup_cons]
  grind

/-- Using a registered wire gives the slot that it holds and counts down. -/
theorem use_eq_ok {hold : Hold} (h : a.Consistent reserved) (hwire : a.find? wire = some hold) :
    ∃ a', a.use wire = .ok (hold.slot, a') ∧ a'.Consistent reserved ∧ a'.next = a.next ∧
      ∀ other, a'.find? other = if other = wire then
        if hold.remaining ≤ 1 then none else some ⟨hold.slot, hold.remaining - 1⟩
        else a.find? other := by
  have hdrop := h.drop hwire
  unfold use
  rw [hwire]
  by_cases hlast : hold.remaining ≤ 1
  · refine ⟨_, if_pos hlast, hdrop.release, rfl, fun other => ?_⟩
    rw [if_pos hlast]
    exact lookup_filter_ne wire other a.held
  · refine ⟨_, if_neg hlast, hdrop.hold wire ⟨hold.slot, hold.remaining - 1⟩ ?_ ?_, rfl,
      fun other => ?_⟩
    · intro hmem
      obtain ⟨entry, hentry, heq⟩ := List.mem_map.1 hmem
      exact (by simpa using (List.mem_filter.1 hentry).2 : entry.1 ≠ wire) heq
    · show 0 < hold.remaining - 1
      omega
    · rw [if_neg hlast]
      have hlookup := lookup_filter_ne wire other a.held
      unfold find?
      rw [List.lookup_cons, hlookup]
      grind

end

end Allocator

end Dataflow
