import Mathlib.Logic.Function.Basic
import Dataflow.Slot.Allocator

/-!
# Renamed wires

An allocator does not look at the wires that hold slots, but at which of them are the same. So
reserving, registering and using give the same slots when the wires are renamed, as long as
different wires get different names.
-/

namespace Dataflow.Allocator

variable {κ κ' : Type} {f : κ → κ'} {a a' : Allocator κ}

/-- The allocator with the wires that hold slots renamed. -/
def rename (f : κ → κ') (a : Allocator κ) : Allocator κ' :=
  ⟨a.held.map fun (wire, hold) => (f wire, hold), a.free, a.next, a.live, a.peak⟩

/-- Reserving gives the same slot. -/
theorem reserve_rename (f : κ → κ') (a : Allocator κ) :
    (a.rename f).reserve = (a.reserve.1, a.reserve.2.rename f) := by
  unfold reserve rename
  cases a.free <;> rfl

variable [DecidableEq κ] [DecidableEq κ']

/-- A renamed wire holds what the wire holds. -/
theorem find?_rename (hf : Function.Injective f) (a : Allocator κ) (wire : κ) :
    (a.rename f).find? (f wire) = a.find? wire := by
  show (a.held.map fun (wire, hold) => (f wire, hold)).lookup (f wire) = a.held.lookup wire
  induction a.held with
  | nil => rfl
  | cons entry rest ih =>
      obtain ⟨key, hold⟩ := entry
      have hkey : (f wire == f key) = (wire == key) := by
        rw [Bool.eq_iff_iff, beq_iff_eq, beq_iff_eq, hf.eq_iff]
      rw [List.map_cons, List.lookup_cons, List.lookup_cons, hkey, ih]

/-- Without a renamed wire the others are those without the wire. -/
theorem filter_rename (hf : Function.Injective f) (held : List (κ × Hold)) (wire : κ) :
    (held.map fun (wire, hold) => (f wire, hold)).filter (·.1 ≠ f wire) =
      (held.filter (·.1 ≠ wire)).map fun (wire, hold) => (f wire, hold) := by
  rw [List.filter_map]
  refine congrArg (List.map _) (List.filter_congr fun entry _ => ?_)
  simp [hf.eq_iff]

/-- Registering a renamed wire gives the same slot. -/
theorem register_rename (hf : Function.Injective f) (a : Allocator κ) (wire : κ)
    (consumers : Nat) : (a.rename f).register (f wire) consumers =
      ((a.register wire consumers).1, (a.register wire consumers).2.rename f) := by
  unfold register
  rw [find?_rename hf]
  cases a.find? wire with
  | some hold => rfl
  | none =>
      simp only [reserve_rename]
      split <;> rfl

/-- Using a renamed wire gives the same slot. -/
theorem use_rename (hf : Function.Injective f) {wire : κ} {slot : Slot}
    (h : a.use wire = .ok (slot, a')) : (a.rename f).use (f wire) = .ok (slot, a'.rename f) := by
  unfold use at h ⊢
  rw [find?_rename hf]
  cases hfind : a.find? wire with
  | none =>
      rw [hfind] at h
      cases h
  | some hold =>
      have hothers := filter_rename hf a.held wire
      simp only [hfind] at h ⊢
      -- the last use gives the slot back, and any other counts down
      by_cases hlast : hold.remaining ≤ 1
      · rw [if_pos hlast] at h ⊢
        cases h
        simp only [rename, release, hothers]
      · rw [if_neg hlast] at h ⊢
        cases h
        simp only [rename, hothers, List.map_cons]

end Dataflow.Allocator
