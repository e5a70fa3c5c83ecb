import Dataflow.Slot.Basic

/-!
# The slot allocator

The allocator hands out slots to wires. A wire holds its slot from its registration until as
many inputs have used it as were announced; then the slot is free again. The lowest free
slot is handed out first, and a new one only when none is free, so no more slots are ever in
use than are held at one time. A reserved slot is never given back.

The slots that were handed out are counted without a bound. A count of 32 bits is the same one as
long as fewer than `2 ^ 32` slots were handed out; each call hands out one at most.
-/

namespace Dataflow

/-- Why a wire cannot be used: it holds no slot. -/
inductive SlotError where
  | unregisteredWire
deriving DecidableEq, Repr

/-- The wording of an error. -/
def SlotError.message : SlotError → String
  | .unregisteredWire => "wire was used before its producer registered it"

/-- What a registered wire holds: its slot, and how many inputs have yet to use it. -/
structure Hold where
  slot : Slot
  remaining : Nat
deriving DecidableEq, Repr

/-- The state of a hand-out of slots to wires named by `κ`: the registered wires with what they
hold, the slots that were given back, in ascending order, the next slot that was never handed out,
how many slots are held or reserved, and the greatest number of these at one time. -/
structure Allocator (κ : Type) where
  held : List (κ × Hold)
  free : List Nat
  next : Nat
  live : Nat
  peak : Nat

/-- Puts a number in its place in an ascending list. -/
def insertAscending (n : Nat) : List Nat → List Nat
  | [] => [n]
  | m :: rest => if n ≤ m then n :: m :: rest else m :: insertAscending n rest

namespace Allocator

variable {κ : Type}

/-- The state in which nothing was handed out. -/
def empty : Allocator κ := ⟨[], [], 0, 0, 0⟩

/-- Hands out the lowest slot that is not in use. -/
def reserve (a : Allocator κ) : Slot × Allocator κ :=
  let live := a.live + 1
  match a.free with
  | n :: rest => (⟨n⟩, { a with free := rest, live, peak := max a.peak live })
  | [] => (⟨a.next⟩, { a with next := a.next + 1, live, peak := max a.peak live })

/-- Takes a slot back. -/
def release (a : Allocator κ) (s : Slot) : Allocator κ :=
  { a with free := insertAscending s.index a.free, live := a.live - 1 }

/-- How many slots were ever handed out. -/
def slotCount (a : Allocator κ) : Nat := a.next

variable [DecidableEq κ]

/-- What a wire holds, if it is registered. -/
def find? (a : Allocator κ) (wire : κ) : Option Hold :=
  a.held.lookup wire

/-- Whether a wire is registered. -/
def isRegistered (a : Allocator κ) (wire : κ) : Bool :=
  (a.find? wire).isSome

/-- Registers a wire that `consumers` inputs will use and gives its slot. A wire that nothing
uses gets none, and one that is registered already keeps what it holds. -/
def register (a : Allocator κ) (wire : κ) (consumers : Nat) : Option Slot × Allocator κ :=
  match a.find? wire with
  | some hold => (some hold.slot, a)
  | none =>
    if consumers = 0 then (none, a)
    else
      let (slot, a) := a.reserve
      (some slot, { a with held := (wire, ⟨slot, consumers⟩) :: a.held })

/-- Uses a wire once and gives its slot, which is free again after the last use. -/
def use (a : Allocator κ) (wire : κ) : Except SlotError (Slot × Allocator κ) :=
  match a.find? wire with
  | none => .error .unregisteredWire
  | some hold =>
    let others := a.held.filter (·.1 ≠ wire)
    if hold.remaining ≤ 1 then .ok (hold.slot, { a with held := others }.release hold.slot)
    else .ok (hold.slot,
      { a with held := (wire, { hold with remaining := hold.remaining - 1 }) :: others })

end Allocator

end Dataflow
