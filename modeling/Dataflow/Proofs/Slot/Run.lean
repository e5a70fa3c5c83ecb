import Mathlib.Data.List.Induction
import Mathlib.Order.Bounds.Basic
import Dataflow.Proofs.Slot.Invariant

/-!
# Runs of slot allocators

An allocator starts empty and serves calls: wires are registered and used, in any order and as
often as anyone likes, and slots are reserved. Whatever was called, the allocator is consistent, its
peak is the greatest number of slots that were in use at one time, and the slot that it hands out
next is the lowest one that is not in use (`Allocator.run_accounts`).
-/

namespace Dataflow.Allocator

/-- What an allocator is asked for: to register a wire that so many inputs will use, to reserve a
slot, or to let an input use a wire. -/
inductive Call (κ : Type) where
  | register (wire : κ) (consumers : Nat)
  | reserve
  | use (wire : κ)

variable {κ : Type} {a : Allocator κ} {reserved : List Nat}

/-! ## The lowest slot that is not in use -/

/-- The slots that are neither reserved nor held. -/
def unused (a : Allocator κ) (reserved : List Nat) : Set Nat :=
  {index | index ∉ reserved ++ a.heldSlots}

/-- A slot that is not in use is free, or was never handed out. -/
theorem Consistent.mem_unused_iff (h : a.Consistent reserved) {index : Nat} :
    index ∈ a.unused reserved ↔ index ∈ a.free ∨ a.next ≤ index := by
  have hmem := h.parts.mem_iff (a := index)
  have hnodup := h.nodup
  rw [← List.append_assoc] at hmem hnodup
  rw [List.mem_append, List.mem_range] at hmem
  have hapart := (List.nodup_append.1 hnodup).2.2
  constructor
  · intro hunused
    by_cases hnew : a.next ≤ index
    · exact .inr hnew
    · exact .inl ((hmem.2 (Nat.lt_of_not_le hnew)).resolve_left hunused)
  · rintro (hfree | hnew) hused
    · exact hapart index hused index hfree rfl
    · exact Nat.not_lt.2 hnew (hmem.1 (.inl hused))

/-- The slot that is handed out next is the lowest one that is not in use. -/
theorem Consistent.isLeast_reserve (h : a.Consistent reserved) :
    IsLeast (a.unused reserved) a.reserve.1.index := by
  have hbelow : ∀ index ∈ a.free, index < a.next := by
    intro index hindex
    have hmem : index ∈ reserved ++ (a.heldSlots ++ a.free) :=
      List.mem_append_right _ (List.mem_append_right _ hindex)
    exact List.mem_range.1 (h.parts.mem_iff.1 hmem)
  have hascending := h.ascending
  cases hfree : a.free with
  | nil =>
      have hslot : a.reserve.1.index = a.next := by simp only [Allocator.reserve, hfree]
      rw [hslot]
      refine ⟨h.mem_unused_iff.2 (.inr (Nat.le_refl _)), fun index hindex => ?_⟩
      rw [h.mem_unused_iff, hfree] at hindex
      exact hindex.resolve_left List.not_mem_nil
  | cons lowest rest =>
      have hslot : a.reserve.1.index = lowest := by simp only [Allocator.reserve, hfree]
      rw [hfree] at hascending hbelow
      have hlowest := List.mem_cons_self (a := lowest) (l := rest)
      rw [hslot]
      refine ⟨h.mem_unused_iff.2 (.inl (hfree ▸ hlowest)), fun index hindex => ?_⟩
      rw [h.mem_unused_iff, hfree] at hindex
      rcases hindex with hmem | hnew
      · rcases List.mem_cons.1 hmem with rfl | hmem
        · exact Nat.le_refl _
        · exact Nat.le_of_lt ((List.pairwise_cons.1 hascending).1 index hmem)
      · exact Nat.le_trans (Nat.le_of_lt (hbelow lowest hlowest)) hnew

/-- An allocator that has handed out nothing is consistent. -/
theorem consistent_empty : (empty : Allocator κ).Consistent [] where
  keys := List.nodup_nil
  positive _ hentry := nomatch hentry
  parts := .refl _
  ascending := .nil
  live_eq := rfl
  peak_eq := rfl

/-- A reservation hands out one new slot at most. -/
theorem next_reserve_le (a : Allocator κ) : a.reserve.2.next ≤ a.next + 1 := by
  unfold Allocator.reserve
  split
  · exact Nat.le_succ _
  · exact Nat.le_refl _

/-! ## Calls -/

variable [DecidableEq κ]

/-- Answers a call with the slot that it gets, if there is one. A call that is refused changes
nothing. -/
def serve (a : Allocator κ) : Call κ → Except SlotError (Option Slot) × Allocator κ
  | .register wire consumers =>
      let (slot, a) := a.register wire consumers
      (.ok slot, a)
  | .reserve =>
      let (slot, a) := a.reserve
      (.ok (some slot), a)
  | .use wire =>
      match a.use wire with
      | .ok (slot, a) => (.ok (some slot), a)
      | .error refusal => (.error refusal, a)

/-- The slot that a call reserves. -/
def reservation (a : Allocator κ) : Call κ → List Nat
  | .reserve => [a.reserve.1.index]
  | .register _ _ | .use _ => []

/-- An allocator with the slots that it has reserved, the latest one in front. -/
structure Ledger (κ : Type) where
  allocator : Allocator κ
  reserved : List Nat

/-- The ledger after one more call. -/
def Ledger.serve (l : Ledger κ) (call : Call κ) : Ledger κ where
  allocator := (l.allocator.serve call).2
  reserved := l.allocator.reservation call ++ l.reserved

/-- The ledger of an allocator that starts empty and serves calls. -/
def run (calls : List (Call κ)) : Ledger κ :=
  calls.foldl Ledger.serve ⟨.empty, []⟩

/-- One more call is served after the others. -/
theorem run_concat (calls : List (Call κ)) (call : Call κ) :
    run (calls ++ [call]) = (run calls).serve call := by
  rw [run, List.foldl_append, List.foldl_cons, List.foldl_nil, run]

/-- A wire that is registered keeps what it holds when it is registered again. -/
theorem register_of_find? {wire : κ} {hold : Hold} (hwire : a.find? wire = some hold) (n : Nat) :
    a.register wire n = (some hold.slot, a) := by
  unfold register
  rw [hwire]

/-- A wire that is not registered cannot be used. -/
theorem use_of_find?_eq_none {wire : κ} (hwire : a.find? wire = none) :
    a.use wire = .error .unregisteredWire := by
  unfold use
  rw [hwire]

/-- A call keeps an allocator consistent, and the peak goes along with the slots in use. -/
theorem Consistent.serve (h : a.Consistent reserved) (call : Call κ) :
    (a.serve call).2.Consistent (a.reservation call ++ reserved) ∧
      (a.serve call).2.peak = max a.peak (a.serve call).2.live := by
  have hunchanged : a.peak = max a.peak a.live := (Nat.max_eq_left h.live_le_peak).symm
  cases call with
  | reserve =>
      refine ⟨h.reserve, ?_⟩
      show a.reserve.2.peak = max a.peak a.reserve.2.live
      unfold Allocator.reserve
      split <;> rfl
  | register wire consumers =>
      cases hwire : a.find? wire with
      | some hold =>
          simp only [Allocator.serve, register_of_find? hwire]
          exact ⟨h, hunchanged⟩
      | none =>
          rcases Nat.eq_zero_or_pos consumers with rfl | hconsumers
          · simp only [Allocator.serve, register_zero hwire]
            exact ⟨h, hunchanged⟩
          · refine ⟨h.register hwire hconsumers, ?_⟩
            show (a.register wire consumers).2.peak = max _ (a.register wire consumers).2.live
            rw [peak_register hwire hconsumers, live_register hwire hconsumers]
  | use wire =>
      cases hwire : a.find? wire with
      | none =>
          simp only [Allocator.serve, use_of_find?_eq_none hwire]
          exact ⟨h, hunchanged⟩
      | some hold =>
          obtain ⟨a', huse, hconsistent, hnext, -⟩ := use_eq_ok h hwire
          simp only [Allocator.serve, huse]
          refine ⟨hconsistent, ?_⟩
          -- no slot is handed out, so the peak stays where it was
          have hpeak : a'.peak = a.peak := by rw [hconsistent.peak_eq, hnext, h.peak_eq]
          rw [← hpeak, Nat.max_eq_left hconsistent.live_le_peak]

/-- A use hands out no slot. -/
theorem next_use {wire : κ} {used : Slot × Allocator κ} (h : a.use wire = .ok used) :
    used.2.next = a.next := by
  unfold use at h
  split at h
  · cases h
  · split at h
    · cases h
      rfl
    · cases h
      rfl

/-- A call hands out one new slot at most. -/
theorem next_serve_le (a : Allocator κ) (call : Call κ) : (a.serve call).2.next ≤ a.next + 1 := by
  cases call with
  | reserve => exact a.next_reserve_le
  | register wire consumers =>
      show (a.register wire consumers).2.next ≤ a.next + 1
      unfold register
      split
      · exact Nat.le_succ _
      · split
        · exact Nat.le_succ _
        · exact a.next_reserve_le
  | use wire =>
      cases huse : a.use wire with
      | error refusal =>
          simp only [Allocator.serve, huse]
          exact Nat.le_succ _
      | ok used =>
          simp only [Allocator.serve, huse, next_use huse]
          exact Nat.le_succ _

/-- No more slots are handed out than there were calls, so a count of 32 bits holds the number of
them in every run of fewer than `2 ^ 32` calls. -/
theorem slotCount_run_le (calls : List (Call κ)) :
    (run calls).allocator.slotCount ≤ calls.length := by
  induction calls using List.reverseRecOn with
  | nil => exact Nat.le_refl _
  | append_singleton calls call ih =>
      rw [run_concat, List.length_append]
      exact Nat.le_trans (next_serve_le _ call) (Nat.succ_le_succ ih)

/-- Whatever was called, an allocator is consistent. -/
theorem run_consistent (calls : List (Call κ)) :
    (run calls).allocator.Consistent (run calls).reserved := by
  induction calls using List.reverseRecOn with
  | nil => exact consistent_empty
  | append_singleton calls call ih =>
      rw [run_concat]
      exact (ih.serve call).1

/-- The numbers of slots that were in use in the course of a run. -/
def liveCounts (calls : List (Call κ)) : Set Nat :=
  {live | ∃ earlier, earlier <+: calls ∧ live = (run earlier).allocator.live}

/-- The peak is the greatest number of slots that were in use at one time. -/
theorem isGreatest_peak (calls : List (Call κ)) :
    IsGreatest (liveCounts calls) (run calls).allocator.peak := by
  induction calls using List.reverseRecOn with
  | nil =>
      refine ⟨⟨[], List.prefix_rfl, rfl⟩, ?_⟩
      rintro live ⟨earlier, hearlier, rfl⟩
      rw [List.prefix_nil.1 hearlier]
      exact Nat.le_refl _
  | append_singleton calls call ih =>
      have hcounts : liveCounts (calls ++ [call]) =
          insert (run (calls ++ [call])).allocator.live (liveCounts calls) := by
        ext live
        constructor
        · rintro ⟨earlier, hearlier, rfl⟩
          rcases List.prefix_concat_iff.1 hearlier with rfl | hearlier
          · exact .inl rfl
          · exact .inr ⟨earlier, hearlier, rfl⟩
        · rintro (rfl | ⟨earlier, hearlier, rfl⟩)
          · exact ⟨_, List.prefix_rfl, rfl⟩
          · exact ⟨earlier, hearlier.trans (List.prefix_append _ _), rfl⟩
      have hpeak := ((run_consistent calls).serve call).2
      rw [hcounts, run_concat, Ledger.serve, hpeak, Nat.max_comm]
      exact ih.insert _

/-- Whatever was called, an allocator accounts for its slots. Those that are reserved, held and free
are the slots ever handed out, each of them once; a registered wire has an input that is yet to use
it; the slots in use are counted, so there is one to give back when a wire gives up its own; the
peak is the greatest such count in the course of the run, and it is the number of slots ever handed
out. Both a reservation and a wire that is registered anew get the lowest slot that is not in
use. -/
theorem run_accounts (calls : List (Call κ)) :
    (run calls).allocator.Consistent (run calls).reserved ∧
    (∀ wire, (run calls).allocator.isRegistered wire → 0 < (run calls).allocator.live) ∧
    IsGreatest (liveCounts calls) (run calls).allocator.peak ∧
    (run calls).allocator.slotCount = (run calls).allocator.peak ∧
    IsLeast ((run calls).allocator.unused (run calls).reserved)
      (run calls).allocator.reserve.1.index ∧
    ∀ wire consumers slot, (run calls).allocator.isRegistered wire = false →
      ((run calls).allocator.register wire consumers).1 = some slot →
      IsLeast ((run calls).allocator.unused (run calls).reserved) slot.index := by
  have hconsistent := run_consistent calls
  refine ⟨hconsistent, fun wire hwire => ?_, isGreatest_peak calls, hconsistent.peak_eq.symm,
    hconsistent.isLeast_reserve, fun wire consumers slot hnew hslot => ?_⟩
  · obtain ⟨hold, hhold⟩ := Option.isSome_iff_exists.1 hwire
    have hheld := List.length_pos_of_mem (hconsistent.find?_eq_some.1 hhold)
    rw [hconsistent.live_eq]
    omega
  · have hfind : (run calls).allocator.find? wire = none := Option.isNone_iff_eq_none.1 (by
      simpa [isRegistered] using hnew)
    rcases Nat.eq_zero_or_pos consumers with rfl | hconsumers
    · rw [register_zero hfind] at hslot
      cases hslot
    · rw [register_eq hfind hconsumers] at hslot
      obtain rfl := Option.some.inj hslot
      exact hconsistent.isLeast_reserve

/-- A slot that a wire gave up goes out again before a new one. -/
example : (run [.register 'a' 1, .register 'b' 2, .use 'a', .use 'b']).allocator.reserve.1 = ⟨0⟩ :=
  rfl

end Dataflow.Allocator
