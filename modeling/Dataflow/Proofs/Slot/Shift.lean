import Dataflow.Proofs.Slot.Run

/-!
# Shifted slots

An allocator does not look at what slots stand for, only at which of them are free and lowest. So
one that has reserved a slot more, in front of all that it hands out, serves as it would have, but
with every slot one further.
-/

namespace Dataflow

/-- The slot that comes next. -/
def Slot.succ (s : Slot) : Slot := ⟨s.index + 1⟩

/-- What is held when every slot is one further. -/
def Hold.shift (h : Hold) : Hold := { h with slot := h.slot.succ }

/-- A shifted number finds its place as the number does. -/
theorem insertAscending_map_succ (n : Nat) (l : List Nat) :
    insertAscending (n + 1) (l.map (· + 1)) = (insertAscending n l).map (· + 1) := by
  induction l with
  | nil => rfl
  | cons m rest ih =>
      rw [List.map_cons, insertAscending, insertAscending, ih]
      by_cases hle : n ≤ m
      · rw [if_pos hle, if_pos (Nat.succ_le_succ hle)]
        rfl
      · rw [if_neg hle, if_neg fun hsucc => hle (Nat.le_of_succ_le_succ hsucc)]
        rfl

namespace Allocator

variable {κ : Type} {a a' : Allocator κ} {reserved : List Nat}

/-- The allocator with one more slot reserved in front of the others. -/
def shift (a : Allocator κ) : Allocator κ where
  held := a.held.map fun (wire, hold) => (wire, hold.shift)
  free := a.free.map (· + 1)
  next := a.next + 1
  live := a.live + 1
  peak := a.peak + 1

/-- Reserving gives the slot one further. -/
theorem reserve_shift (a : Allocator κ) :
    a.shift.reserve = (a.reserve.1.succ, a.reserve.2.shift) := by
  have hpeak : max (a.peak + 1) (a.live + 1 + 1) = max a.peak (a.live + 1) + 1 :=
    Nat.add_max_add_right _ _ _
  unfold reserve
  cases hfree : a.free with
  | nil => simp only [shift, hfree, List.map_nil, hpeak, Slot.succ]
  | cons n rest => simp only [shift, hfree, List.map_cons, hpeak, Slot.succ]

/-- Taking a slot back, if one is in use, takes back the one that is one further. -/
theorem release_shift (slot : Slot) (hlive : 0 < a.live) :
    a.shift.release slot.succ = (a.release slot).shift := by
  have hcount : a.live + 1 - 1 = a.live - 1 + 1 := by omega
  simp only [release, shift, Slot.succ, insertAscending_map_succ, hcount]

variable [DecidableEq κ]

/-- A wire holds the slot one further. -/
theorem find?_shift (a : Allocator κ) (wire : κ) :
    a.shift.find? wire = (a.find? wire).map Hold.shift := by
  show (a.held.map fun (wire, hold) => (wire, hold.shift)).lookup wire =
    (a.held.lookup wire).map Hold.shift
  induction a.held with
  | nil => rfl
  | cons entry rest ih =>
      obtain ⟨key, hold⟩ := entry
      rw [List.map_cons, List.lookup_cons, List.lookup_cons, ih]
      cases wire == key <;> rfl

/-- Registering a wire gives the slot one further. -/
theorem register_shift (a : Allocator κ) (wire : κ) (consumers : Nat) :
    a.shift.register wire consumers =
      ((a.register wire consumers).1.map Slot.succ, (a.register wire consumers).2.shift) := by
  unfold register
  rw [find?_shift]
  cases a.find? wire with
  | some hold => rfl
  | none =>
      simp only [reserve_shift, Option.map_none]
      split <;> rfl

/-- A wire that holds a slot has one in use. -/
theorem Consistent.live_pos {wire : κ} {hold : Hold} (h : a.Consistent reserved)
    (hwire : a.find? wire = some hold) : 0 < a.live := by
  have hheld := List.length_pos_of_mem (h.find?_eq_some.1 hwire)
  rw [h.live_eq]
  omega

/-- Using a wire gives the slot one further. -/
theorem Consistent.use_shift (h : a.Consistent reserved) {wire : κ} {slot : Slot}
    (huse : a.use wire = .ok (slot, a')) : a.shift.use wire = .ok (slot.succ, a'.shift) := by
  unfold use at huse ⊢
  rw [find?_shift]
  cases hwire : a.find? wire with
  | none =>
      rw [hwire] at huse
      cases huse
  | some hold =>
      have hothers : (a.held.map fun (wire, hold) => (wire, hold.shift)).filter (·.1 ≠ wire) =
          (a.held.filter (·.1 ≠ wire)).map fun (wire, hold) => (wire, hold.shift) := by
        rw [List.filter_map]
        rfl
      simp only [hwire] at huse
      show (if hold.remaining ≤ 1 then _ else _) = _
      -- the last use gives the slot back, and any other counts down
      by_cases hlast : hold.remaining ≤ 1
      · rw [if_pos hlast] at huse ⊢
        cases huse
        have hrelease := release_shift (a := { a with held := a.held.filter (·.1 ≠ wire) })
          hold.slot (h.live_pos hwire)
        rw [← hrelease]
        simp only [shift, hothers]
        rfl
      · rw [if_neg hlast] at huse ⊢
        cases huse
        simp only [shift, hothers]
        rfl

/-- Registering a wire, whether it is new or not, keeps an allocator consistent. -/
theorem Consistent.register_any (h : a.Consistent reserved) (wire : κ) (consumers : Nat) :
    (a.register wire consumers).2.Consistent reserved :=
  (h.serve (.register wire consumers)).1

/-- A wire that gets a slot from its registration holds it. -/
theorem find?_of_register {wire : κ} {consumers : Nat} {slot : Slot}
    (h : a.register wire consumers = (some slot, a')) :
    ∃ hold, a'.find? wire = some hold ∧ hold.slot = slot := by
  cases hwire : a.find? wire with
  | some hold =>
      rw [register_of_find? hwire] at h
      cases h
      exact ⟨hold, hwire, rfl⟩
  | none =>
      rcases Nat.eq_zero_or_pos consumers with rfl | hconsumers
      · rw [register_zero hwire] at h
        cases h
      · have hafter := find?_register wire hwire hconsumers
        rw [if_pos rfl, h] at hafter
        rw [register_eq hwire hconsumers] at h
        exact ⟨_, hafter, Option.some.inj (congrArg Prod.fst h)⟩

/-- A wire that is used holds a slot, and using it keeps an allocator consistent. -/
theorem Consistent.of_use (h : a.Consistent reserved) {wire : κ} {slot : Slot}
    (huse : a.use wire = .ok (slot, a')) :
    a'.Consistent reserved ∧ ∃ hold, a.find? wire = some hold ∧ hold.slot = slot := by
  cases hwire : a.find? wire with
  | none =>
      rw [use_of_find?_eq_none hwire] at huse
      cases huse
  | some hold =>
      obtain ⟨used, heq, hconsistent, -⟩ := use_eq_ok h hwire
      rw [huse] at heq
      cases heq
      exact ⟨hconsistent, hold, rfl, rfl⟩

end Allocator

end Dataflow
